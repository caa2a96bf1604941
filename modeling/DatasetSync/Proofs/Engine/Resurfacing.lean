import DatasetSync.Proofs.Engine.Courses
import DatasetSync.Proofs.Engine.LateCopy
import DatasetSync.Proofs.Sync.Footprint
import DatasetSync.Proofs.Sync.Removal

/-!
# Removed objects that come back

A look at a living document removes the objects of files that are no longer declared. It neither
stops nor awaits the copy run that is registered for the document, and this run may still copy some
of them. Here one copy run and one look meet, and nobody else touches objects: their moves and
those of other clients follow each other in any order, the run may be cancelled at any time, and
copies may fail. Whether an object is there in the end is decided by the last of its copies and
removals that ended well.

An object of a removed file is back in the end, and no status knows of it, exactly if the run has
copied it after its last removal. If the run has ended when the look begins to remove, or if it is
stopped and has no such copy in flight, what was removed stays removed.
-/

namespace DatasetSync

/-- The place is that of a file which is recorded but not declared any more, and of no file of the
target. -/
def Document.Vacates (document : Document) (now : Timestamp) (lineage : List String)
    (place : ObjectAddress) : Prop :=
  (∃ group ∈ (document.reconcile now lineage).deleted, ∃ file ∈ group.files,
      document.place file.path = place) ∧
    ∀ group ∈ (document.reconcile now lineage).target.files, ∀ file ∈ group.files,
      document.place file.path ≠ place

namespace Engine

variable {policy : Policy} {past recent : List Transition} {before middle after finish : Engine}
  {event : Event} {backends : Backends} {registry : Registry} {seen : List Document}
  {copier remover look : Nat} {document : Document} {place : ObjectAddress}

/-- In the move the run makes a call on the object store, and is answered. -/
def Transition.Makes (transition : Transition) (number : Nat) (call : ObjectCall)
    (answer : call.Answer) : Prop :=
  transition.event = .ran number ∧
    transition.before.backends.objects.answer call =
      (answer, transition.after.backends.objects)

/-- A copy of the run to the place ends well. -/
def Transition.Lands (transition : Transition) (number : Nat) (place : ObjectAddress) : Prop :=
  ∃ source, transition.Makes number (.copyObject place source) (.ok ())

/-- The run removes what there is at the place. -/
def Transition.Removes (transition : Transition) (number : Nat) (place : ObjectAddress) : Prop :=
  transition.Makes number (.removeObject place) (.ok ())

/-- A copy of one run lands at the place, and the other run does not remove it any more. -/
def Resurfaces (history : List Transition) (copier remover : Nat) (place : ObjectAddress) : Prop :=
  ∃ front copied back, history = front ++ copied :: back ∧ copied.Lands copier place ∧
    ∀ later ∈ back, ¬ later.Removes remover place

/-- Of all runs and looks only the two runs and the look touch objects in the move. -/
def Event.isConfined (copier remover look : Nat) : Event → Bool
  | .ran number => number = copier ∨ number = remover
  | .asked asker (.call call) _ => asker = look ∨ call.SparesObjects
  | _ => true

/-- The copy lands in the last move, or it has landed before and is not removed in the last one. -/
theorem resurfaces_append {history : List Transition} {transition : Transition} :
    Resurfaces (history ++ [transition]) copier remover place ↔
      transition.Lands copier place ∨
        (Resurfaces history copier remover place ∧ ¬ transition.Removes remover place) := by
  constructor
  · rintro ⟨front, copied, back, cut, lands, kept⟩
    rcases last_or_behind cut with ⟨-, rfl⟩ | ⟨behind, rfl, rfl⟩
    · exact .inl lands
    · exact .inr ⟨⟨front, copied, behind, rfl, lands,
        fun later member => kept later (List.mem_append_left _ member)⟩,
        kept _ List.mem_concat_self⟩
  · rintro (lands | ⟨⟨front, copied, back, rfl, lands, kept⟩, last⟩)
    · exact ⟨history, transition, [], rfl, lands, by simp⟩
    · refine ⟨front, copied, back ++ [transition], by simp, lands, ?_⟩
      intro later member
      rcases List.mem_append.mp member with former | new
      · exact kept later former
      · obtain rfl := List.mem_singleton.mp new
        exact last

/-- A launched run copies: looks launch nothing else, and wait for the removal runs that they
start. -/
theorem Coherent.copies_of_launched (coherent : Coherent policy past before) {run : EngineRun}
    {number : Nat} {key : String} {id : RunId} (found : before.runs[number]? = some run)
    (launched : run.origin = .launched key id) : run.active.plan.mode = .copy := by
  obtain ⟨document, -, planned⟩ := coherent.planned number run found
  rw [launched] at planned
  generalize run.active.plan = plan at planned
  cases planned with
  | launched present past leads =>
    cases Policy.looking_of_leads leads with
    | atLaunch => rfl

/-- A run that a look waits for removes: looks wait for nothing else. -/
theorem Coherent.removes_of_waited (coherent : Coherent policy past before) {run : EngineRun}
    {number : Nat} (found : before.runs[number]? = some run)
    (waited : run.origin = .look look) : run.active.plan.mode = .remove := by
  obtain ⟨document, -, planned⟩ := coherent.planned number run found
  rw [waited] at planned
  generalize run.active.plan = plan at planned
  cases planned with
  | look present past leads => cases Policy.looking_of_leads leads <;> rfl

/-- A copy run and the removal run of a look at a living document may meet: as far as they are
there, the one run was launched, and the look waits for the other one. -/
structure Meet (engine : Engine) (copier remover look : Nat) : Prop where
  copies : ∀ run, engine.runs[copier]? = some run → ∃ key id, run.origin = .launched key id
  removes : ∀ run, engine.runs[remover]? = some run → run.origin = .look look
  living : ∀ document stage, engine.looks[look]? = some ⟨document, stage⟩ →
    document.isDeleting = false

/-- Runs and looks that meet later are the same ones before, as long as they are there. -/
theorem Meet.sooner (meet : Meet after copier remover look)
    (move : Step policy before event after) : Meet before copier remover look where
  copies run found := by
    obtain ⟨run', found', moved⟩ := move.run_present found
    exact moved.origin ▸ meet.copies run' found'
  removes run found := by
    obtain ⟨run', found', moved⟩ := move.run_present found
    exact moved.origin ▸ meet.removes run' found'
  living document stage found := by
    obtain ⟨stage', found'⟩ := move.lookMove.present found
    exact meet.living document stage' found'

/-- After the move an object is at the place exactly if it was there or the copy run has copied it
there, and the removal run has not removed it. -/
def Transition.Explains (transition : Transition) (copier remover : Nat) (place : ObjectAddress) :
    Prop :=
  transition.after.backends.objects.Holds place ↔
    (transition.before.backends.objects.Holds place ∨ transition.Lands copier place) ∧
      ¬ transition.Removes remover place

/-- No run copies or removes an object in a move of others in which the store rests. -/
theorem explains_of_rests (other : ∀ number, event ≠ .ran number)
    (rests : before.backends.objects.Rests after.backends.objects) :
    (⟨before, event, after⟩ : Transition).Explains copier remover place := by
  unfold Transition.Explains
  rw [rests.holds place]
  simp [Transition.Lands, Transition.Removes, Transition.Makes, other]

/-- When only a copy run, a removal run and a look at a living document touch objects, the copies of
the one and the removals of the other explain where objects are. -/
theorem Execution.explains
    (execution : Execution policy (idle backends registry seen) past before)
    (move : Step policy before event after) (meet : Meet before copier remover look)
    (distinct : copier ≠ remover) (confined : event.isConfined copier remover look = true)
    (place : ObjectAddress) :
    (⟨before, event, after⟩ : Transition).Explains copier remover place := by
  have coherent := coherent_of_execution execution
  cases move with
  | @call asker document call next asking =>
    refine explains_of_rests (by simp) ?_
    rcases of_decide_eq_true confined with rfl | spares
    · have living := meet.living document _ asking
      have asks := (@Policy.reconcile_sparesObjects policy document living).leads
        (coherent.follows _ document _ asking)
      exact asks.1.rests before.backends
    · exact spares.rests before.backends
  | @run number run active backends' found moved =>
    obtain ⟨first, turns, course, -⟩ := execution.followed (Nat.zero_le number) found
    unfold Transition.Explains
    rcases of_decide_eq_true confined with rfl | rfl
    · obtain ⟨key, id, launched⟩ := meet.copies run found
      rw [course.holds_of_copy (coherent.copies_of_launched found launched) moved place]
      simp [Transition.Lands, Transition.Removes, Transition.Makes, distinct]
    · have waited := meet.removes run found
      rw [course.holds_of_removal (coherent.removes_of_waited found waited) moved place]
      simp [Transition.Lands, Transition.Removes, Transition.Makes, distinct.symm]
  | _ => exact explains_of_rests (by simp) ObjectStore.rests_rfl

/-- When only a copy run, a removal run and a look at a living document touch objects, an object is
there in the end exactly if a copy of it has landed and was not removed any more, or it was there
before and was not removed at all. -/
theorem Execution.holds_iff
    (execution : Execution policy (idle backends registry seen) past middle)
    (continued : Execution policy middle recent finish) (meet : Meet finish copier remover look)
    (distinct : copier ≠ remover)
    (confined : ∀ transition ∈ recent, transition.event.isConfined copier remover look = true)
    (place : ObjectAddress) :
    finish.backends.objects.Holds place ↔
      Resurfaces recent copier remover place ∨
        (middle.backends.objects.Holds place ∧
          ∀ transition ∈ recent, ¬ transition.Removes remover place) := by
  induction continued with
  | start => simp [Resurfaces]
  | @step recent before after event earlier move ih =>
    have former := ih (meet.sooner move)
      fun transition member => confined transition (List.mem_append_left _ member)
    have law : after.backends.objects.Holds place ↔ _ := (execution.append earlier).explains move
      (meet.sooner move) distinct (confined _ List.mem_concat_self) place
    have apart : (⟨before, event, after⟩ : Transition).Lands copier place →
        ¬ (⟨before, event, after⟩ : Transition).Removes remover place := by
      rintro ⟨source, copied, -⟩ ⟨removed, -⟩
      exact distinct (Event.ran.inj (copied.symm.trans removed))
    rw [law, former, resurfaces_append, List.forall_mem_append, List.forall_mem_singleton]
    constructor
    · rintro ⟨(surfaced | ⟨held, kept⟩) | lands, last⟩
      · exact .inl (.inr ⟨surfaced, last⟩)
      · exact .inr ⟨held, kept, last⟩
      · exact .inl (.inl lands)
    · rintro ((lands | ⟨surfaced, last⟩) | ⟨held, kept, last⟩)
      · exact ⟨.inr lands, apart lands⟩
      · exact ⟨.inl (.inl surfaced), last⟩
      · exact ⟨.inl (.inr ⟨held, kept⟩), last⟩

/-- A run has made a call by moving where the execution had come to. The execution is cut in two at
this move. -/
theorem Execution.exists_moved {transition : Transition} {number : Nat} {call : ObjectCall}
    {answer : call.Answer} (continued : Execution policy middle recent finish)
    (member : transition ∈ recent) (makes : transition.Makes number call answer) :
    ∃ front back run active, Execution policy middle front transition.before ∧
      Execution policy transition.before back finish ∧
      transition.before.runs[number]? = some run ∧
      ActiveRun.Step Backends.answer (run.active, transition.before.backends)
        (active, transition.after.backends) := by
  obtain ⟨front, back, rfl⟩ := List.append_of_mem member
  obtain ⟨earlier, move, later⟩ := continued.around
  have going := (Execution.start.step move).append later
  rw [makes.1] at move
  obtain ⟨run, active, found, moved⟩ := move.ran_cases
  exact ⟨front, _, run, active, earlier, going, found, moved⟩

/-- What a removal run of a look removes in an execution, its plan hits. This is read off the course
of the run. -/
theorem Execution.hits_of_removes {run : EngineRun} {transition : Transition}
    (execution : Execution policy (idle backends registry seen) past middle)
    (continued : Execution policy middle recent finish)
    (found : finish.runs[remover]? = some run) (waited : run.origin = .look look)
    (member : transition ∈ recent) (removes : transition.Removes remover place) :
    run.active.plan.Hits place := by
  obtain ⟨front, back, former, active, earlier, later, present, moved⟩ :=
    continued.exists_moved member removes
  have sooner := execution.append earlier
  obtain ⟨run', found', plan, origin⟩ := sooner.run_kept later present
  obtain rfl := Option.some.inj (found.symm.trans found')
  obtain ⟨first, turns, course, -⟩ := sooner.followed (Nat.zero_le remover) present
  have mode := (coherent_of_execution sooner).removes_of_waited present (origin.symm.trans waited)
  rw [plan]
  exact course.hits_of_removed mode moved removes.2

/-- A removal run of a look that has come to a good end, and of which no removal failed, has removed
all that its plan hits. -/
theorem Execution.removes_all {run : EngineRun} {result : RunOutcome}
    (execution : Execution policy (idle backends registry seen) past middle)
    (continued : Execution policy middle recent finish) (new : middle.runs.length ≤ remover)
    (found : finish.runs[remover]? = some run) (waited : run.origin = .look look)
    (ended : run.active.outcome? = some (.ok result))
    (succeeded : ∀ transition ∈ recent, ∀ place answer,
      transition.Makes remover (.removeObject place) answer → answer = .ok ())
    (hit : run.active.plan.Hits place) :
    ∃ transition ∈ recent, transition.Removes remover place := by
  obtain ⟨first, turns, course, took⟩ := continued.followed new found
  have mode := (coherent_of_execution (execution.append continued)).removes_of_waited found waited
  have uncancelled : ∀ turn ∈ turns, turn.deed ≠ .cancelled := by
    intro turn member
    rcases took turn member with ⟨kind, -⟩ | ⟨-, free⟩
    · exact kind
    · exact absurd waited (free look)
  obtain ⟨turn, member, answer, answered⟩ := course.removes_all mode ended uncancelled hit
  rcases took turn member with ⟨-, transition, moved, ran, before, after⟩ | ⟨-, free⟩
  · have made : transition.Makes remover (.removeObject place) answer :=
      ⟨ran, by rw [before, after, answered]⟩
    obtain rfl := succeeded transition moved place answer made
    exact ⟨transition, moved, made⟩
  · exact absurd waited (free look)

/-- A copy run that is not at work, or that is stopped and has no copy to the place in flight, does
not bring an object back. -/
theorem Execution.not_resurfaces {run : EngineRun}
    (execution : Execution policy (idle backends registry seen) past middle)
    (continued : Execution policy middle recent finish) (found : middle.runs[copier]? = some run)
    (winds : run.active.Winds fun job => job.destination ≠ place) :
    ¬ Resurfaces recent copier remover place := by
  rintro ⟨front, transition, back, rfl, ⟨source, makes⟩, -⟩
  obtain ⟨ahead, -, former, active, earlier, -, present, moved⟩ :=
    continued.exists_moved (List.mem_append_right _ List.mem_cons_self) makes
  obtain ⟨run', present', -, winding⟩ := earlier.run_present found
  obtain rfl := Option.some.inj (present.symm.trans present')
  have logged := ObjectStore.log_answer transition.before.backends.objects (.copyObject place source)
  rw [makes.2] at logged
  have made := (coherent_of_execution (execution.append earlier)).made copier former present
  obtain ⟨pool, working, job, running, -, same⟩ := made.copies moved logged
  exact (winding _ winds pool working).2 job running same

/-- A look at a living document has removed all objects that its removal run hits, while of other
runs and looks only one copy run of the document touched any. -/
structure Withdraws (policy : Policy) (recent : List Transition) (finish : Engine)
    (copier remover look : Nat) (document : Document) (now : Timestamp) (lineage : List String) :
    Prop where
  living : document.isDeleting = false
  looks : ∃ stage, finish.looks[look]? = some ⟨document, stage⟩
  copies : ∃ run id, finish.runs[copier]? = some run ∧
    run.origin = .launched document.key.toString id
  removes : ∃ run, finish.runs[remover]? = some run ∧ run.origin = .look look ∧
    run.active.plan = policy.removal document now lineage
  confined : ∀ transition ∈ recent, transition.event.isConfined copier remover look = true
  removed : ∀ place, (policy.removal document now lineage).Hits place →
    ∃ transition ∈ recent, transition.Removes remover place

namespace Withdraws

variable {now : Timestamp} {lineage : List String}

/-- The copy run and the look meet, and the run that the look waits for is not the copy run. -/
theorem meet (withdraws : Withdraws policy recent finish copier remover look document now lineage) :
    Meet finish copier remover look ∧ copier ≠ remover := by
  obtain ⟨stage, looks⟩ := withdraws.looks
  obtain ⟨copying, id, copies, launched⟩ := withdraws.copies
  obtain ⟨removing, removes, waited, -⟩ := withdraws.removes
  refine ⟨⟨?copies, ?removes, ?living⟩, ?distinct⟩
  case copies =>
    intro run found
    obtain rfl := Option.some.inj (copies.symm.trans found)
    exact ⟨_, id, launched⟩
  case removes =>
    intro run found
    obtain rfl := Option.some.inj (removes.symm.trans found)
    exact waited
  case living =>
    intro other stage' found
    cases looks.symm.trans found
    exact withdraws.living
  case distinct =>
    rintro rfl
    obtain rfl := Option.some.inj (copies.symm.trans removes)
    cases launched.symm.trans waited

/-- An object that the removal run hits is there in the end exactly if the copy run has brought it
back. -/
theorem holds_iff_resurfaces
    (withdraws : Withdraws policy recent finish copier remover look document now lineage)
    (execution : Execution policy (idle backends registry seen) past middle)
    (continued : Execution policy middle recent finish)
    (hit : (policy.removal document now lineage).Hits place) :
    finish.backends.objects.Holds place ↔ Resurfaces recent copier remover place := by
  obtain ⟨meet, distinct⟩ := withdraws.meet
  rw [execution.holds_iff continued meet distinct withdraws.confined place]
  refine or_iff_left ?_
  rintro ⟨-, kept⟩
  obtain ⟨transition, member, removes⟩ := withdraws.removed place hit
  exact kept transition member removes

/-- An object that the removal run does not hit is there in the end exactly if it was there, or the
copy run has copied it. -/
theorem holds_iff_of_not_hits
    (withdraws : Withdraws policy recent finish copier remover look document now lineage)
    (execution : Execution policy (idle backends registry seen) past middle)
    (continued : Execution policy middle recent finish)
    (spared : ¬ (policy.removal document now lineage).Hits place) :
    finish.backends.objects.Holds place ↔
      Resurfaces recent copier remover place ∨ middle.backends.objects.Holds place := by
  obtain ⟨meet, distinct⟩ := withdraws.meet
  obtain ⟨run, removes, waited, plan⟩ := withdraws.removes
  rw [execution.holds_iff continued meet distinct withdraws.confined place]
  refine or_congr_right (and_iff_left ?_)
  intro transition member removed
  have hit := execution.hits_of_removes continued removes waited member removed
  rw [plan] at hit
  exact spared hit

/-- If the copy run is not at work when the look begins to remove, or is stopped and has no copy to
the place in flight, a removed object stays removed. -/
theorem stays_removed {run : EngineRun}
    (withdraws : Withdraws policy recent finish copier remover look document now lineage)
    (execution : Execution policy (idle backends registry seen) past middle)
    (continued : Execution policy middle recent finish) (found : middle.runs[copier]? = some run)
    (winds : run.active.Winds fun job => job.destination ≠ place)
    (hit : (policy.removal document now lineage).Hits place) :
    ¬ finish.backends.objects.Holds place := by
  rw [withdraws.holds_iff_resurfaces execution continued hit]
  exact execution.not_resurfaces continued found winds

end Withdraws

/-- After a look has removed what is no longer declared, no object of a removed file is there unless
a file of the target has its place, exactly if the copy run brings none of them back, and there
was none that the removal does not hit. -/
theorem undeclared_stay_removed_iff {now : Timestamp} {lineage : List String}
    (execution : Execution policy (idle backends registry seen) past middle)
    (continued : Execution policy middle recent finish)
    (withdraws : Withdraws policy recent finish copier remover look document now lineage) :
    (∀ place, document.Vacates now lineage place → ¬ finish.backends.objects.Holds place) ↔
      ∀ place, document.Vacates now lineage place →
        ¬ Resurfaces recent copier remover place ∧
          ((policy.removal document now lineage).Hits place ∨
            ¬ middle.backends.objects.Holds place) := by
  refine forall_congr' fun place => forall_congr' fun vacates => ?_
  by_cases hit : (policy.removal document now lineage).Hits place
  · rw [withdraws.holds_iff_resurfaces execution continued hit]
    simp [hit]
  · rw [withdraws.holds_iff_of_not_hits execution continued hit, not_or]
    simp [hit]

/-- A marked document that declares one file, which has yet to be copied. -/
def declaringDocument : Document :=
  { markedDocument with
    spec := { markedDocument.spec with
      fileGroups := [{ source := Policy.sharedSource "x", paths := ["a.txt"] }] }
    status := some
      { conditions := []
        files := [⟨{ apiGroup := none, kind := Reference.versionedDatasetKind
                     name := Layout.lineageName "v1", ns := some "team-a" }, []⟩,
          ⟨Policy.sharedSource "x", [.blank "a.txt" .processing]⟩] } }

/-- The declaring document as it is stored first. -/
def declaringVersion : Document := DocumentStore.withToken declaringDocument "1"

/-- The declaring document after its file was taken out of the declaration. -/
def withdrawnVersion : Document :=
  DocumentStore.withToken
    { declaringDocument with spec := { declaringDocument.spec with fileGroups := [] } } "2"

/-- Surroundings in which the declaring document is stored, and its file can be copied. -/
def declaringBackends : Backends where
  objects := (ObjectStore.empty.putObject "raw" "a.txt").putBucket "team-a"
  documents := DocumentStore.empty.write "2024-05-01T00:00:00+00:00" (.insert declaringDocument)
  table := { BucketTable.empty with buckets := OrderedMap.empty.insert "x" "raw" }
  now := "2024-05-01T00:00:00+00:00"

/-- The place of the one file of the declaring document. -/
def withdrawnPlace : ObjectAddress := ⟨"team-a", "dataset/ds/v1/a.txt"⟩

/-- The file is the only one that is not declared any more. -/
theorem deleted_withdrawn {now : Timestamp} : (withdrawnVersion.reconcile now []).deleted =
    [⟨Policy.sharedSource "x", [.blank "a.txt" .processing]⟩] := rfl

/-- The removal for the withdrawn version hits the place of the file, and no other one. -/
theorem hits_withdrawn_iff {now : Timestamp} :
    ((default : Policy).removal withdrawnVersion now []).Hits place ↔ place = withdrawnPlace := by
  constructor
  · rintro ⟨job, member, rfl⟩
    obtain rfl := List.mem_singleton.mp (member : job ∈ [_])
    rfl
  · rintro rfl
    exact ⟨_, List.mem_cons_self, rfl⟩

/-- The place of the file is one of a removed file, and of no file of the target. -/
theorem vacates_withdrawnPlace {now : Timestamp} :
    withdrawnVersion.Vacates now [] withdrawnPlace := by
  constructor
  · rw [deleted_withdrawn]
    exact ⟨_, List.mem_cons_self, _, List.mem_cons_self, by decide⟩
  · intro group member file listed
    obtain rfl := List.mem_singleton.mp (member : group ∈ [_])
    cases listed

/-- A copy run is carrying out its copy when the file is taken out of the declaration. A look
removes the file and writes its target, and then the copy lands. Both runs and the look have ended.

All moves are listed in their order. The first look launches a run, which begins its copy; the file
is taken out of the declaration, and the second look removes it. The first run has been at work all
the time. -/
theorem removed_before_copied :
    ∃ past middle recent finish, Execution default
        (idle declaringBackends .empty [declaringVersion]) past middle ∧
      Execution default middle recent finish ∧
      middle.registry.running.get? withdrawnVersion.key.toString = some 0 ∧
      (∃ run, middle.runs[0]? = some run ∧
        run.origin = .launched withdrawnVersion.key.toString 0) ∧
      Withdraws default recent finish 0 1 1 withdrawnVersion "2024-05-01T00:00:00+00:00" [] ∧
      (finish.runs.all fun run => run.active.outcome?.isSome) = true ∧
      (finish.looks.all fun look => look.stage.hasEnded) = true ∧
      finish.backends.objects.Holds withdrawnPlace := by
  have begun := Execution.start.step (@Step.begin default
    (idle declaringBackends .empty [declaringVersion]) declaringVersion List.mem_cons_self)
  have clocked := begun.step (@Step.call default _ 0 declaringVersion .clock _ rfl)
  have launched := clocked.step (@Step.launch default _ 0 declaringVersion _ _ _ rfl)
  have observed := launched.step
    (@Step.run default _ 0 _ _ _ rfl (.work (.observe _) (.internal _ _)))
  have checked := observed.step
    (@Step.run default _ 0 _ _ _ rfl (.work (.call _ _ _) (.called _ _ _)))
  have continued := checked.step
    (@Step.run default _ 0 _ _ _ rfl (.work (.observe _) (.internal _ _)))
  have resolved := continued.step
    (@Step.run default _ 0 _ _ _ rfl (.work (.call _ _ _) (.called _ _ _)))
  have going := resolved.step
    (@Step.run default _ 0 _ _ _ rfl (.work (.observe _) (.internal _ _)))
  have queued := going.step
    (@Step.run default _ 0 _ _ _ rfl (.work (.enqueue _ _ rfl) (.internal _ _)))
  have started := queued.step
    (@Step.run default _ 0 _ _ _ rfl (.work (.start rfl rfl nofun) (.internal _ _)))
  have edited := started.resting.step
    (.write (.update { withdrawnVersion with metadata := declaringVersion.metadata }))
  have read := edited.step (@Step.read default _ declaringDocument.key withdrawnVersion rfl)
  have begun := read.step (@Step.begin default _ withdrawnVersion List.mem_cons_self)
  have clocked := begun.step (@Step.call default _ 1 withdrawnVersion .clock _ rfl)
  have synced := clocked.step (@Step.sync default _ 1 withdrawnVersion _ _ rfl)
  have observed := synced.step
    (@Step.run default _ 1 _ _ _ rfl (.work (.observe _) (.internal _ _)))
  have checked := observed.step
    (@Step.run default _ 1 _ _ _ rfl (.work (.call _ _ _) (.called _ _ _)))
  have continued := checked.step
    (@Step.run default _ 1 _ _ _ rfl (.work (.observe _) (.internal _ _)))
  have queued := continued.step
    (@Step.run default _ 1 _ _ _ rfl (.work (.enqueue _ _ rfl) (.internal _ _)))
  have begun := queued.step
    (@Step.run default _ 1 _ _ _ rfl (.work (.start rfl rfl nofun) (.internal _ _)))
  have removed := begun.step
    (@Step.run default _ 1 _ _ _ rfl (.work (.finish 0 _ _ rfl) (.executed _ rfl)))
  have delivered := removed.resting.step
    (@Step.run default _ 1 _ _ _ rfl (.work (.deliver _ _ _ rfl) (.delivered _ _ _ _)))
  have concluded := delivered.step (@Step.run default _ 1 _ _ _ rfl (.conclude _ _ rfl))
  have reread := concluded.step (@Step.run default _ 1 _ _ _ rfl (.call _ _ _ _))
  have resumed := reread.step (@Step.resume default _ 1 1 withdrawnVersion _ _ _ _ rfl rfl rfl)
  have written := resumed.step (@Step.call default _ 1 withdrawnVersion (.document _) _ rfl)
  have copied := written.step
    (@Step.run default _ 0 _ _ _ rfl (.work (.finish 0 _ _ rfl) (.executed _ rfl)))
  have delivered := copied.step
    (@Step.run default _ 0 _ _ _ rfl (.work (.deliver _ _ _ rfl) (.delivered _ _ _ _)))
  have concluded := delivered.step (@Step.run default _ 0 _ _ _ rfl (.conclude _ _ rfl))
  have reread := concluded.step (@Step.run default _ 0 _ _ _ rfl (.call _ _ _ _))
  have retired := reread.step (@Step.retire default _ 0 _ _ _ _ rfl rfl rfl rfl)
  refine ⟨_, _, _, _, started, removed.append retired, rfl, ⟨_, rfl, rfl⟩, ?withdraws, rfl, rfl,
    rfl⟩
  refine ⟨rfl, ⟨_, rfl⟩, ⟨_, _, rfl, rfl⟩, ⟨_, rfl, rfl, rfl⟩, List.all_eq_true.mp rfl, ?removed⟩
  case removed =>
    intro place hit
    refine ⟨_, List.mem_append_left _ List.mem_concat_self, rfl, ?_⟩
    rw [hits_withdrawn_iff.mp hit]
    rfl

/-- A look removes the object of a file that is no longer declared, and when the look and the copy
run that was registered have ended, the object is there. -/
theorem undeclared_file_comes_back :
    ∃ past middle recent finish copier remover look document now lineage id place,
      Execution default (idle declaringBackends .empty [declaringVersion]) past middle ∧
      Execution default middle recent finish ∧
      middle.registry.running.get? document.key.toString = some id ∧
      (∃ run, middle.runs[copier]? = some run ∧
        run.origin = .launched document.key.toString id) ∧
      Withdraws default recent finish copier remover look document now lineage ∧
      (finish.runs.all fun run => run.active.outcome?.isSome) = true ∧
      (finish.looks.all fun look => look.stage.hasEnded) = true ∧
      document.Vacates now lineage place ∧ finish.backends.objects.Holds place := by
  obtain ⟨past, middle, recent, finish, execution, continued, registered, launched, withdraws, runs,
    looks, held⟩ := removed_before_copied
  exact ⟨past, middle, recent, finish, 0, 1, 1, withdrawnVersion, _, [], 0, withdrawnPlace,
    execution, continued, registered, launched, withdraws, runs, looks, vacates_withdrawnPlace,
    held⟩

/-- The copy run brings the file back: its place is one that the look has vacated, and a copy ends
well there after the removal. -/
theorem withdrawn_file_resurfaces :
    ∃ past middle recent finish, Execution default
        (idle declaringBackends .empty [declaringVersion]) past middle ∧
      Execution default middle recent finish ∧
      Withdraws default recent finish 0 1 1 withdrawnVersion "2024-05-01T00:00:00+00:00" [] ∧
      ∃ place, withdrawnVersion.Vacates "2024-05-01T00:00:00+00:00" [] place ∧
        Resurfaces recent 0 1 place := by
  obtain ⟨past, middle, recent, finish, execution, continued, -, -, withdraws, -, -, held⟩ :=
    removed_before_copied
  refine ⟨past, middle, recent, finish, execution, continued, withdraws, ?_⟩
  by_contra none
  refine (undeclared_stay_removed_iff execution continued withdraws).mpr ?_ withdrawnPlace
    vacates_withdrawnPlace held
  intro place vacates
  refine ⟨fun surfaced => none ⟨place, vacates, surfaced⟩, .inl ?_⟩
  obtain ⟨⟨group, listed, file, member, rfl⟩, -⟩ := vacates
  rw [deleted_withdrawn] at listed
  obtain rfl := List.mem_singleton.mp listed
  obtain rfl := List.mem_singleton.mp member
  exact hits_withdrawn_iff.mpr (by decide)

end Engine

end DatasetSync
