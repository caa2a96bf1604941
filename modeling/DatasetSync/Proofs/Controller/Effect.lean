import DatasetSync.Proofs.Controller.Round
import DatasetSync.Proofs.Store.Inheritance

/-!
# What a run does among nobody else

While nobody else acts, the stores change by the calls of the run alone. Its pool spares the
documents. Where it copies, the objects that it adds lie at the places of the files of its plan;
where it removes, it adds none. In the end the run writes at most once, over the version that it
has just read; how it ends can be read off that version.
-/

namespace DatasetSync

/-- Two stores are the same but for the log of their calls. -/
def ObjectStore.Alike (before after : ObjectStore) : Prop := ∃ log, after = { before with log }

/-- Stores that are the same hold the same objects. They may differ in their logs. -/
theorem ObjectStore.Alike.holds_iff {before after : ObjectStore} (alike : before.Alike after)
    (place : ObjectAddress) : after.Holds place ↔ before.Holds place := by
  obtain ⟨log, rfl⟩ := alike
  exact .rfl

section Performs

variable {α : Type} {before after : Backends} {value reached : α}

/-- A program that is done asks nothing more: it ends with its value, in the same stores, whatever
the time is by then. -/
theorem performs_done_iff :
    Performs (.done value) before reached after ↔ reached = value ∧ Ticks before after := by
  constructor
  · intro performs
    cases performs with
    | done _ _ now => exact ⟨rfl, now, rfl⟩
  · rintro ⟨rfl, now, rfl⟩
    exact .done reached before now

/-- A program that asks is answered at some time, and goes on from there. -/
theorem performs_ask_iff {call : Call} {next : call.Answer → Calling α} :
    Performs (.ask call next) before value after ↔
      ∃ now, Performs (next ((before.atTime now).answer call).1)
        ((before.atTime now).answer call).2 value after := by
  constructor
  · intro performs
    cases performs with
    | ask now later => exact ⟨now, later⟩
  · rintro ⟨now, later⟩
    exact .ask now later

/-- Calls that spare the documents leave them as they are, whatever the time is. -/
theorem Performs.documents {program : Calling α}
    (spares : program.AsksOnly Call.SparesDocuments)
    (performs : Performs program before value after) : after.documents = before.documents := by
  induction performs with
  | done => rfl
  | ask now later ih => exact (ih (spares.2 _)).trans (spares.1.answer _)

/-- The listing of the parent version comes to what the store says, and changes nothing but the
log. -/
theorem Performs.listed {document : Document} {listed : Except StorageError (List String)}
    (performs : Performs document.listLineage before listed after) :
    listed = document.lineageIn before.objects ∧ after.documents = before.documents ∧
      before.objects.Alike after.objects := by
  unfold Document.listLineage at performs
  unfold Document.lineageIn
  cases inherits : document.spec.parent? with
  | none =>
    rw [inherits] at performs
    obtain ⟨rfl, now, rfl⟩ := performs_done_iff.mp performs
    exact ⟨rfl, rfl, before.objects.log, rfl⟩
  | some parent =>
    rw [inherits] at performs
    obtain ⟨now, later⟩ := performs_ask_iff.mp performs
    obtain ⟨rfl, now', rfl⟩ := performs_done_iff.mp later
    exact ⟨rfl, rfl, _, rfl⟩

/-- The documents after a target was written under the token of a document. -/
def DocumentStore.targeted (store : DocumentStore) (document : Document) (target : Status) :
    DocumentStore :=
  match document.versionToken with
  | none => store
  | some token => (store.patchStatus document.key token target).2

/-- A look writes its target once, under the token of the version that it has read, and does nothing
at all if that version bears none. Whether the write is accepted or refused, the objects stay. -/
theorem Performs.target {document : Document} {target : Status}
    {result : Except ReconcileError Next}
    (performs : Performs (Policy.writeTarget document target) before result after) :
    after.documents = before.documents.targeted document target ∧
      after.objects = before.objects := by
  unfold Policy.writeTarget at performs
  unfold DocumentStore.targeted
  cases snapshot : document.versionToken with
  | none =>
    rw [snapshot] at performs
    obtain ⟨rfl, now, rfl⟩ := performs_done_iff.mp performs
    exact ⟨rfl, rfl⟩
  | some token =>
    rw [snapshot] at performs
    obtain ⟨now, later⟩ := performs_ask_iff.mp performs
    dsimp only [Program.done_bind] at later
    split at later <;> obtain ⟨rfl, now', rfl⟩ := performs_done_iff.mp later <;> exact ⟨rfl, rfl⟩

/-- Whoever looks at the clock changes nothing. The time that is read is any time at all, since time
may pass before the call. -/
theorem Performs.clock {now : Timestamp} (performs : Performs Call.readClock before now after) :
    after.documents = before.documents ∧ after.objects = before.objects := by
  obtain ⟨shown, later⟩ := performs_ask_iff.mp performs
  obtain ⟨-, now', rfl⟩ := performs_done_iff.mp later
  exact ⟨rfl, rfl⟩

/-- A look puts labels and finalizer on with a single update of the document, and reports a refusal
without trying again. It touches no object. -/
theorem Performs.mark {marked : Document} {result : Except ReconcileError Next}
    (performs : Performs (Policy.mark marked) before result after) :
    after.documents = (before.documents.update marked).2 ∧ after.objects = before.objects := by
  obtain ⟨now, later⟩ := performs_ask_iff.mp performs
  dsimp only [Program.done_bind] at later
  split at later <;> obtain ⟨rfl, now', rfl⟩ := performs_done_iff.mp later <;> exact ⟨rfl, rfl⟩

end Performs

namespace SyncPlan

open Pool

variable {plan : SyncPlan} {before after : Backends} {outcome : Except SyncError RunOutcome}
  {latest : Document} {tree : FileTree} {produced : Except SyncError Unit}
  {history : List Moment} {pool : SyncPool} {first backends : Backends} {job : SyncJob}
  {place : ObjectAddress}

/-- A run that has read a deleted document clears its finalizers with a single update, however that
is answered, and touches no object. -/
theorem performs_release {latest : Document}
    (performs : Performs (release latest) before outcome after) :
    after.documents = (before.documents.update latest.unguarded).2 ∧
      after.objects = before.objects := by
  obtain ⟨now, later⟩ := performs_ask_iff.mp performs
  dsimp only [Program.done_bind] at later
  split at later <;> obtain ⟨rfl, now', rfl⟩ := performs_done_iff.mp later <;> exact ⟨rfl, rfl⟩

/-- How a run ends that has tried to clear the finalizers of its document. -/
def releaseEnd : Except StoreError Document → Except SyncError RunOutcome
  | .ok _ => .ok .finalized
  | .error (.notFound _) => .ok .finalized
  | .error error => .error (.store error)

/-- How a run ends among nobody else: what came of making its jobs, how the run ends, and the
documents that it leaves. -/
inductive Ends (plan : SyncPlan) (tree : FileTree) (before : DocumentStore) :
    Except SyncError Unit → Except SyncError RunOutcome → DocumentStore → Prop
  /-- Its jobs could not all be made. -/
  | failed (error : SyncError) : Ends plan tree before (.error error) (.error error) before
  | gone (absent : before.get? plan.document.key = none) :
      Ends plan tree before (.ok ()) (.ok .gone) before
  | released {latest : Document} (found : before.get? plan.document.key = some latest)
      (deleting : latest.isDeleting = true) :
      Ends plan tree before (.ok ()) (releaseEnd (before.update latest.unguarded).1)
        (before.update latest.unguarded).2
  | removed {latest : Document} (found : before.get? plan.document.key = some latest)
      (living : latest.isDeleting = false) (removes : plan.mode = .remove) :
      Ends plan tree before (.ok ()) (.ok .removed) before
  /-- The plan was made for a version without a token. -/
  | tokenless {latest : Document} (found : before.get? plan.document.key = some latest)
      (living : latest.isDeleting = false) (copies : plan.mode ≠ .remove)
      (missing : plan.document.versionToken = none) :
      Ends plan tree before (.ok ()) (.error (.missingVersionToken plan.document.key)) before
  | superseded {latest : Document} (found : before.get? plan.document.key = some latest)
      (living : latest.isDeleting = false) (copies : plan.mode ≠ .remove)
      (snapshot : plan.document.versionToken ≠ none)
      (moved : latest.versionToken ≠ plan.document.versionToken) :
      Ends plan tree before (.ok ()) (.ok .superseded) before
  | unchanged {latest : Document} {token : String} {now : Timestamp}
      (found : before.get? plan.document.key = some latest) (accepts : plan.Accepts latest token)
      (same : latest.status = some (commitStatus latest.status tree now)) :
      Ends plan tree before (.ok ()) (.ok .unchanged) before
  | committed {latest : Document} {token : String} {now : Timestamp}
      (found : before.get? plan.document.key = some latest) (accepts : plan.Accepts latest token)
      (differs : latest.status ≠ some (commitStatus latest.status tree now)) :
      Ends plan tree before (.ok ())
        (.ok (.committed ((commitStatus latest.status tree now).ready?.any Condition.holds)))
        (before.patchStatus plan.document.key token (commitStatus latest.status tree now)).2

/-- To clear the finalizers is one call, and the end of the run is read off its answer. A document
that is gone by then counts as finalized. -/
theorem release_eq (latest : Document) : release latest =
    .ask (.document (.update latest.unguarded)) fun answer => .done (releaseEnd answer) := by
  refine congrArg (Program.ask _) (funext fun answer => ?_)
  rcases answer with (_ | _ | _ | _) | _ <;> rfl

/-- A run that may write to the version it has read leaves it as it is or replaces its status. Among
nobody else that version is still the stored one, so that the store accepts its token, and a refusal
is impossible. -/
theorem ends_of_writeStatus {token : String}
    (performs : Performs (writeStatus plan.document.key token latest.status tree) before outcome
      after)
    (found : before.documents.get? plan.document.key = some latest)
    (accepts : plan.Accepts latest token) :
    plan.Ends tree before.documents (.ok ()) outcome after.documents ∧
      after.objects = before.objects := by
  obtain ⟨now, later⟩ := performs_ask_iff.mp performs
  dsimp only [Program.done_bind] at later
  split at later
  · rename_i same
    obtain ⟨rfl, now', rfl⟩ := performs_done_iff.mp later
    exact ⟨.unchanged found accepts same, rfl⟩
  · rename_i differs
    obtain ⟨now', final⟩ := performs_ask_iff.mp later
    have answered : (before.documents.patchStatus plan.document.key token
        (commitStatus latest.status tree (before.atTime now).now)).1 = .ok () := by
      simp [DocumentStore.patchStatus, found, accepts.current]
    dsimp only [Program.done_bind] at final
    split at final
    · obtain ⟨rfl, now'', rfl⟩ := performs_done_iff.mp final
      exact ⟨.committed found accepts differs, rfl⟩
    all_goals
      rename_i refused
      have impossible := answered.symm.trans refused
      cases impossible

/-- Every way in which a run can end among nobody else. The proof follows the conclusion call by
call: the read, the checks on what was read, and the one write that they may lead to. -/
theorem ends_of_performs
    (performs : Performs (plan.conclude tree produced false) before outcome after) :
    plan.Ends tree before.documents produced outcome after.documents ∧
      after.objects = before.objects := by
  unfold conclude at performs
  split at performs
  · obtain ⟨rfl, now, rfl⟩ := performs_done_iff.mp performs
    exact ⟨.failed _, rfl⟩
  simp only [Bool.false_eq_true, if_false] at performs
  obtain ⟨now, later⟩ := performs_ask_iff.mp performs
  dsimp only [Program.done_bind] at later
  split at later
  · rename_i refused
    cases refused
  · rename_i answer
    obtain ⟨rfl, now', rfl⟩ := performs_done_iff.mp later
    exact ⟨.gone (Except.ok.inj answer), rfl⟩
  · rename_i latest answer
    have found : before.documents.get? plan.document.key = some latest := Except.ok.inj answer
    split at later
    · rename_i deleting
      rw [release_eq] at later
      obtain ⟨now', final⟩ := performs_ask_iff.mp later
      obtain ⟨rfl, now'', rfl⟩ := performs_done_iff.mp final
      exact ⟨.released found deleting, rfl⟩
    rename_i living
    rw [Bool.not_eq_true] at living
    split at later
    · rename_i removes
      obtain ⟨rfl, now', rfl⟩ := performs_done_iff.mp later
      exact ⟨.removed found living removes, rfl⟩
    rename_i copies
    split at later
    · rename_i missing
      obtain ⟨rfl, now', rfl⟩ := performs_done_iff.mp later
      exact ⟨.tokenless found living copies missing, rfl⟩
    rename_i token snapshot
    split at later
    · rename_i moved
      obtain ⟨rfl, now', rfl⟩ := performs_done_iff.mp later
      exact ⟨.superseded found living copies (by simp [snapshot]) (snapshot ▸ moved), rfl⟩
    · rename_i current
      have accepts : plan.Accepts latest token :=
        ⟨living, copies, snapshot, by simpa using current⟩
      obtain ⟨ends, objects⟩ := ends_of_writeStatus later found accepts
      exact ⟨ends, objects⟩

/-- What the conclusion of a run does to the documents. -/
inductive Concludes (plan : SyncPlan) (tree : FileTree) (before after : DocumentStore) : Prop
  | kept (same : after = before)
  | released {latest : Document} (found : before.get? plan.document.key = some latest)
      (deleting : latest.isDeleting = true) (cleared : after = (before.update latest.unguarded).2)
  | written {latest : Document} {token : String} {now : Timestamp}
      (found : before.get? plan.document.key = some latest) (accepts : plan.Accepts latest token)
      (differs : latest.status ≠ some (commitStatus latest.status tree now))
      (patched : after = (before.patchStatus plan.document.key token
        (commitStatus latest.status tree now)).2)

/-- However a run ends, it writes at most once. Only two of its ends write: the one that clears
finalizers, and the one that commits a status. -/
theorem Ends.concludes {documents : DocumentStore}
    (ends : plan.Ends tree before.documents produced outcome documents) :
    plan.Concludes tree before.documents documents := by
  cases ends with
  | failed | gone | removed | tokenless | superseded | unchanged => exact .kept rfl
  | released found deleting => exact .released found deleting rfl
  | committed found accepts differs => exact .written found accepts differs rfl

/-- What the calls that conclude a run do: they touch no object, and they change the documents by
one write at most. -/
theorem concludes_of_performs
    (performs : Performs (plan.conclude tree produced false) before outcome after) :
    plan.Concludes tree before.documents after.documents ∧ after.objects = before.objects :=
  (ends_of_performs performs).imp_left Ends.concludes

/-- The pool of a run spares the documents: neither its producer nor its jobs make a call on
them. -/
theorem Working.documents (working : plan.Working Ticks first history pool tree backends) :
    backends.documents = first.documents := by
  induction working with
  | start => rfl
  | change past change ih =>
    obtain ⟨now, rfl⟩ := change
    exact ih
  | @work history pool pool' tree tree' before after event past move effect ih =>
    rw [← ih]
    cases effect with
    | internal | delivered => rfl
    | called call =>
      have within := (past.reachable.1.accepted plan.produce_within).1
      cases move with
      | call call next answer => exact within.1.1.answer _
    | @executed job _ _ _ _ performed =>
      have kept := Calling.perform_spares job.perform_spares before
      rw [performed] at kept
      exact kept

/-- A job that is carried out lies at the place of a file of the plan, and has a source if the
plan copies. -/
theorem placed_of_accepted (reachable : Reachable plan.sizing (.initial plan.produce false) pool)
    (accepted : job ∈ pool.floor.accepted) :
    (∃ group ∈ plan.groups, ∃ file ∈ group.files, job.destination = plan.destination file.path) ∧
      (plan.mode = .remove → job.source = none) := by
  obtain ⟨i, j, group, file, location, present, listed, located, made⟩ :=
    (reachable.accepted plan.produce_makes).2 job accepted
  obtain ⟨-, -, rfl⟩ := jobFor?_eq_some_iff.mp made
  refine ⟨⟨group, List.mem_of_getElem? present, file, List.mem_of_getElem? listed, rfl⟩,
    fun removes => ?_⟩
  obtain ⟨calls, leads⟩ := located
  have nowhere : plan.locate? group.source = .done (.ok none) := by simp [locate?, removes]
  rw [nowhere] at leads
  obtain ⟨-, same⟩ := Program.done_leads_iff.mp leads
  cases same
  rfl

/-- What a job adds lies at its destination, and a job without a source adds nothing. -/
theorem holds_of_performed {result : Except StorageError Unit}
    (performed : Calling.perform Backends.answer job.perform before = (result, after))
    (held : after.objects.Holds place) :
    before.objects.Holds place ∨ (job.source ≠ none ∧ place = job.destination) := by
  cases origin : job.source with
  | none =>
    have removed : (before.objects.answer (.removeObject job.destination)).2 = after.objects := by
      rw [SyncJob.perform, origin] at performed
      exact congrArg (fun outcome => outcome.2.objects) performed
    rw [← removed] at held
    exact .inl ((ObjectStore.loses_removeObject _ _).holds place |>.mp held).1
  | some source =>
    rw [perform_copy origin] at performed
    cases performed
    rcases (ObjectStore.holds_copyObject _ _ _ place).mp held with former | ⟨-, own⟩
    · exact .inl former
    · exact .inr ⟨by simp, own⟩

/-- The objects that a run adds lie at the places of the files of its plan; a removal adds
none. -/
theorem Working.gains (working : plan.Working Ticks first history pool tree backends)
    (held : backends.objects.Holds place) :
    first.objects.Holds place ∨
      (plan.mode ≠ .remove ∧
        ∃ group ∈ plan.groups, ∃ file ∈ group.files, place = plan.destination file.path) := by
  induction working with
  | start => exact .inl held
  | change past change ih =>
    obtain ⟨now, rfl⟩ := change
    exact ih held
  | work past move effect ih =>
    obtain ⟨reachable, -⟩ := past.reachable
    cases effect with
    | internal | delivered => exact ih held
    | called call =>
      have within := (reachable.accepted plan.produce_within).1
      cases move with
      | call call next answer =>
        exact ih (((within.1.2.loses _).holds place).mp held).1
    | executed tree performed =>
      rcases holds_of_performed performed held with former | ⟨copies, rfl⟩
      · exact ih former
      · obtain ⟨conserved, -⟩ := reachable.honors plan.delivers_produce
        obtain ⟨⟨group, listed, file, member, own⟩, removes⟩ :=
          placed_of_accepted reachable (move.execution_accepted conserved)
        exact .inr ⟨fun mode => copies (removes mode), group, listed, file, member, own⟩

/-- A copy takes no object away, wherever it stands in its work. Its jobs write at their
destinations, and its producer only asks. -/
theorem Working.keeps (copies : plan.mode = .copy)
    (working : plan.Working Ticks first history pool tree backends)
    (held : first.objects.Holds place) : backends.objects.Holds place := by
  induction working with
  | start => exact held
  | change past change ih =>
    obtain ⟨now, rfl⟩ := change
    exact ih
  | work past move effect ih => exact (past.holds_step copies move effect).1 place ih

/-- What a whole run does: its conclusion writes what the completions have made of its tree, and
what it adds lies at the places of its files. -/
theorem Runs.effect (runs : plan.Runs before outcome after) :
    (∃ completions, plan.Concludes
        (recordAll plan.document.datasetName completions plan.document.files)
        before.documents after.documents) ∧
      (∀ place, after.objects.Holds place → before.objects.Holds place ∨
        (plan.mode ≠ .remove ∧
          ∃ group ∈ plan.groups, ∃ file ∈ group.files, place = plan.destination file.path)) ∧
      (plan.mode = .copy → ∀ place, before.objects.Holds place → after.objects.Holds place) := by
  obtain ⟨history, pool, tree, middle, produced, working, -, performs⟩ := runs.cases
  obtain ⟨concludes, objects⟩ := concludes_of_performs performs
  refine ⟨⟨completions history, ?_⟩, fun place held => ?_, fun copies place held => ?_⟩
  · rw [← working.documents, ← working.tree_eq]
    exact concludes
  · rw [objects] at held
    exact working.gains held
  · rw [objects]
    exact working.keeps copies held

end SyncPlan

end DatasetSync
