import DatasetSync.Proofs.Engine.Sweeping
import DatasetSync.Proofs.Engine.Writes
import DatasetSync.Proofs.Sync.Removal

/-!
# What a stale look removes

A look removes what its own version of the document does not declare, and only then presents
the token of that version. If the document was written in the meantime, the token is refused,
but the objects are gone. So a look whose version is stale may remove the object of a file
that the stored version tracks as synced and declares, and no later copy run brings it back.

It is known exactly when this happens: when the look's own version records, and does not
declare, a file whose object lies at the same place.
-/

namespace DatasetSync

namespace Engine

variable {policy : Policy} {past : List Transition} {before finish : Engine}
  {backends : Backends} {registry : Registry} {document : Document} {lineage : List String}

/-- A move of the first look, of a run, or of another client. -/
def Event.Alone : Event → Prop
  | .wrote _ | .ticked _ | .ran _ => True
  | .began look _ | .synced look _ | .asked look _ _ => look = 0
  | _ => False

instance : DecidablePred Event.Alone
  | .wrote _ | .ticked _ | .ran _ => isTrue trivial
  | .began look _ | .synced look _ | .asked look _ _ => inferInstanceAs (Decidable (look = 0))
  | .read _ | .retired _ | .scheduled _ | .cancelled _ => isFalse id

/-- The first look has listed the paths that the parent version of its document holds. -/
def HasListed (history : List Transition) (document : Document) (lineage : List String) : Prop :=
  ∃ listed, listed.map Controlling.exchanged <+: exchanges 0 history ∧
    document.listLineage.Leads listed (.done (.ok lineage))

/-- The stored version of a document records a file as synced and still declares it, given
what its parent version holds, and the object of the file lies at a place. -/
def Tracks (engine : Engine) (key : QualifiedName) (lineage : List String)
    (place : ObjectAddress) : Prop :=
  ∃ stored source file, engine.stored? key = some stored ∧
    stored.files.Records stored.ns source file ∧ file.phase = .succeeded ∧
    (stored.declaredTree lineage).Lists stored.ns source file.path ∧
    stored.place file.path = place

/-- Of the objects that were there at some time, the engine has kept those of all files that
the stored version of a document tracks. -/
def KeepsTracked (engine : Engine) (objects : ObjectStore) (key : QualifiedName)
    (lineage : List String) : Prop :=
  ∀ place, engine.Tracks key lineage place → objects.Holds place →
    engine.backends.objects.Holds place

/-- An exchange of a look is made in a move in which this look asks. -/
theorem mem_exchanges_iff {look : Nat} {history : List Transition} {exchange : Exchange Controls} :
    exchange ∈ exchanges look history ↔
      ∃ transition ∈ history, transition.event = .asked look exchange.request exchange.answer := by
  unfold exchanges
  rw [List.mem_filterMap]
  refine exists_congr fun transition => and_congr_right fun _ => ?_
  cases event : transition.event with
  | asked asker control answer =>
    unfold Event.exchange?
    by_cases same : asker = look
    · subst same
      simp only [if_true, Option.some.injEq]
      constructor
      · rintro rfl
        rfl
      · intro asked
        cases asked
        rfl
    · simp [same]
  | _ => simp [Event.exchange?]

/-- What a look has listed it has listed once. A second listing would stand in the same place of
what was asked. -/
theorem HasListed.unique {lineage' : List String} (first : HasListed past document lineage)
    (second : HasListed past document lineage') : lineage = lineage' := by
  obtain ⟨listed, within, reads⟩ := first
  obtain ⟨listed', within', reads'⟩ := second
  have leads : (Controlling.calling document.listLineage).Leads
      (listed.map Controlling.exchanged) (.done (.ok lineage)) :=
    Controlling.calling_leads_iff.mpr ⟨listed, _, rfl, reads, rfl⟩
  have leads' : (Controlling.calling document.listLineage).Leads
      (listed'.map Controlling.exchanged) (.done (.ok lineage')) :=
    Controlling.calling_leads_iff.mpr ⟨listed', _, rfl, reads', rfl⟩
  obtain ⟨-, same⟩ := leads.done_unique leads' within within'
  exact Except.ok.inj same

/-- While nobody reads documents, no further version is read. -/
theorem Execution.seen_alone {seen : List Document}
    (execution : Execution policy (idle backends registry seen) past before)
    (alone : ∀ transition ∈ past, transition.event.Alone) {version : Document}
    (read : version ∈ before.seen) : version ∈ seen := by
  induction execution with
  | start => exact read
  | step earlier move ih =>
    have former := ih fun transition member => alone transition (List.mem_append_left _ member)
    rcases move.seen_cases read with seen | ⟨rfl, -⟩
    · exact former seen
    · exact (alone _ List.mem_concat_self).elim

/-- What a look has asked before it writes its target are quiet calls and the removal. -/
theorem quiet_or_synced {now : Timestamp} {calls : List (Exchange Calls)}
    {trail : List (Exchange Controls)} (prepared : Policy.Prepares document now lineage calls)
    (removed : policy.Removes document now lineage calls trail) {exchange : Exchange Controls}
    (asked : exchange ∈ trail) :
    (∃ call, exchange.request = .call call ∧ call.SparesObjects) ∨
      ∃ plan, exchange.request = .sync plan := by
  obtain ⟨listed, rfl, reads⟩ := prepared
  have quiet : ∀ exchange ∈ listed, exchange.request.IsQuiet :=
    (Policy.listLineage_quiet document).asked reads
  have called : ∀ exchange ∈ List.map Controlling.exchanged (listed ++ [⟨.clock, now⟩]),
      ∃ call, exchange.request = .call call ∧ call.SparesObjects := by
    intro exchange member
    obtain ⟨made, within, rfl⟩ := List.mem_map.mp member
    rcases List.mem_append.mp within with listing | clock
    · exact ⟨made.request, rfl, (quiet made listing).2⟩
    · cases List.mem_singleton.mp clock
      exact ⟨.clock, rfl, trivial⟩
  cases removed with
  | nothing => exact .inl (called exchange asked)
  | all outcome =>
    rcases List.mem_append.mp asked with calling | last
    · exact .inl (called exchange calling)
    · cases List.mem_singleton.mp last
      exact .inr ⟨_, rfl⟩

/-- What a look has listed stands at the beginning of what it has asked, before its removal. -/
theorem listed_of_removed {now : Timestamp} {calls : List (Exchange Calls)}
    {trail : List (Exchange Controls)} (prepared : Policy.Prepares document now lineage calls)
    (removed : policy.Removes document now lineage calls trail) :
    ∃ listed, listed.map Controlling.exchanged <+: trail ∧
      document.listLineage.Leads listed (.done (.ok lineage)) := by
  obtain ⟨listed, rfl, reads⟩ := prepared
  refine ⟨listed, ?_, reads⟩
  cases removed with
  | nothing =>
    rw [List.map_append]
    exact List.prefix_append _ _
  | all outcome =>
    rw [List.map_append, List.append_assoc]
    exact List.prefix_append _ _

/-- If there was anything to remove, the look has waited for the end of its removal, and this was a
good one. -/
theorem synced_of_hits {now : Timestamp} {calls : List (Exchange Calls)}
    {trail : List (Exchange Controls)} {place : ObjectAddress}
    (removed : policy.Removes document now lineage calls trail)
    (hit : (policy.removal document now lineage).Hits place) :
    ∃ outcome, Policy.synced (policy.removal document now lineage) (.ok outcome) ∈ trail := by
  cases removed with
  | nothing none =>
    obtain ⟨job, member, -⟩ := hit
    have empty : (policy.removal document now lineage).removals = [] := by
      simp [SyncPlan.removals, SyncPlan.removalsOf, Policy.removal, SyncPlan.removing, none]
    rw [empty] at member
    cases member
  | all outcome => exact ⟨outcome, List.mem_concat_self⟩

/-- A look that has come to its target, alone with its runs and other clients, has made only
moves by which no run but a removal is started. -/
theorem removing_of_alone {now : Timestamp} {calls : List (Exchange Calls)}
    (alone : ∀ transition ∈ past, transition.event.Alone)
    (prepared : Policy.Prepares document now lineage calls)
    (removed : policy.Removes document now lineage calls (exchanges 0 past)) :
    ∀ transition ∈ past, transition.event.Removing := by
  intro transition member
  have own := alone transition member
  cases event : transition.event with
  | wrote | ticked | began | synced | ran => trivial
  | read | retired | scheduled | cancelled =>
    rw [event] at own
    exact own.elim
  | asked look control answer =>
    rw [event] at own
    obtain rfl : look = 0 := own
    have exchanged : (⟨control, answer⟩ : Exchange Controls) ∈ exchanges 0 past :=
      mem_exchanges_iff.mpr ⟨transition, member, event⟩
    rcases quiet_or_synced prepared removed exchanged with ⟨call, rfl, spares⟩ | ⟨plan, rfl⟩
    · exact spares
    · trivial

/-- The run of a look at a living document, alone with its runs and other clients, is the
removal of what the look has found undeclared. -/
theorem Coherent.plan_of_alone (coherent : Coherent policy past before)
    (alone : ∀ transition ∈ past, transition.event.Alone)
    (only : ∀ version ∈ before.seen, version = document) (living : document.isDeleting = false)
    {number look : Nat} {run : EngineRun} (found : before.runs[number]? = some run)
    (waited : run.origin = .look look) :
    ∃ now lineage, HasListed past document lineage ∧
      run.active.plan = policy.removal document now lineage := by
  obtain ⟨version, seen, planned⟩ := coherent.planned number run found
  obtain rfl : version = document := only version seen
  rw [waited] at planned
  generalize run.active.plan = plan at planned
  cases planned with
  | @look _ stage trail next present within leads =>
    obtain ⟨-, transition, member, began⟩ := coherent.begun look version stage present
    have own := alone transition member
    rw [began] at own
    obtain rfl : look = 0 := own
    cases Policy.looking_of_leads leads with
    | atCleanup deleting =>
      rw [living] at deleting
      cases deleting
    | @atRemoval now lineage calls _ _ prepared =>
      obtain ⟨listed, rfl, reads⟩ := prepared
      refine ⟨now, lineage, ⟨listed, ?_, reads⟩, rfl⟩
      rw [List.map_append] at within
      exact (List.prefix_append _ _).trans within

/-- What a look has removed when it is about to write its target: exactly the objects at the places
of files that its own version records and does not declare, unless the store has refused to remove
them.

The removal hits the place of an undeclared file, and the look has seen it ending well. Conversely,
what is gone was hit by some run, and every run is the removal of this look. -/
theorem holds_iff_at_target {key : QualifiedName} {token : String} {target : Status}
    {version : Document} {next : Except StoreError Unit → Controlling (Except ReconcileError Next)}
    (execution : Execution policy (idle backends registry [document]) past before)
    (alone : ∀ transition ∈ past, transition.event.Alone)
    (asking : before.looks[0]? =
      some ⟨version, .asking (.ask (.call (.document (.patchStatus key token target))) next)⟩) :
    key = document.key ∧ ∃ lineage, HasListed past document lineage ∧
      ∀ place, backends.objects.Holds place →
        (before.backends.objects.Holds place ↔
          (document.Strays lineage place → backends.objects.Refuses place)) := by
  have coherent := coherent_of_execution execution
  have only : ∀ version ∈ before.seen, version = document := fun version seen =>
    List.mem_singleton.mp (execution.seen_alone alone seen)
  obtain rfl : version = document := only version (coherent.begun 0 version _ asking).1
  have leads : (policy.reconcile version).Leads (exchanges 0 past)
      (.ask (.call (.document (.patchStatus key token target))) next) :=
    coherent.follows 0 version _ asking
  generalize whole : exchanges 0 past = trail at leads
  cases Policy.looking_of_leads leads with
  | atCall spares => exact absurd rfl (spares _)
  | @atTarget _ now lineage calls _ _ living prepared removed snapshot =>
    subst whole
    have swept := execution.swept (removing_of_alone alone prepared removed)
    obtain ⟨gone, lost, hits⟩ := swept.lost
    have listed : HasListed past version lineage := listed_of_removed prepared removed
    refine ⟨rfl, lineage, listed, fun place former => ⟨fun present stray => ?_, fun spared => ?_⟩⟩
    · have hit : (policy.removal version now lineage).Hits place :=
        Policy.hits_removal_iff.mpr stray
      obtain ⟨outcome, member⟩ := synced_of_hits removed hit
      obtain ⟨transition, made, synced⟩ := mem_exchanges_iff.mp member
      have cleared := swept.ended transition made 0 _ outcome synced place hit
      exact (lost.refuses place).mp (cleared present)
    · by_contra absent
      have taken : gone place := by
        by_contra kept
        exact absent ((lost.holds place).mpr ⟨former, kept⟩)
      obtain ⟨⟨number, run, found, hit⟩, allowed⟩ := hits place taken
      obtain ⟨⟨look, waited⟩, -⟩ := swept.runs number run found
      obtain ⟨now', lineage', listed', plan⟩ :=
        coherent.plan_of_alone alone only living found waited
      rw [plan, Policy.hits_removal_iff, ← listed.unique listed'] at hit
      exact allowed (spared hit)

/-- A call of a look is the next thing that is left of it, and it is answered by the
backends. -/
theorem Step.asked_call {after : Engine} {event : Event} {look : Nat} {call : Call}
    {answer : call.Answer} (move : Step policy before event after)
    (asked : event = .asked look (.call call) answer) :
    ∃ version next, before.looks[look]? = some ⟨version, .asking (.ask (.call call) next)⟩ ∧
      after.backends = (before.backends.answer call).2 := by
  cases move with
  | call asking =>
    injection asked with sameLook sameControl
    subst sameLook
    cases sameControl
    exact ⟨_, _, asking, rfl⟩
  | _ => cases asked

/-- A look at a stale version, of which the status write is refused, keeps the objects of all
files that the stored version tracks, exactly if the look's own version does not record
without declaring it a file at the place of one of them, unless the store has refused to
remove that. -/
theorem stale_look_keeps_tracked_iff {key named : QualifiedName} {token : String}
    {target : Status} {conflict : Transition}
    (execution : Execution policy (idle backends registry [document]) (past ++ [conflict]) finish)
    (alone : ∀ transition ∈ past, transition.event.Alone)
    (conflicts : conflict.event =
      .asked 0 (.call (.document (.patchStatus key token target))) (.error (.conflict named))) :
    ∃ lineage, HasListed past document lineage ∧
      ∀ declared, finish.KeepsTracked backends.objects document.key declared ↔
        ∀ place, finish.Tracks document.key declared place → backends.objects.Holds place →
          document.Strays lineage place → backends.objects.Refuses place := by
  obtain ⟨earlier, move, rfl⟩ := execution.last
  obtain ⟨version, next, asking, after⟩ := move.asked_call conflicts
  obtain ⟨-, lineage, listed, holds⟩ := holds_iff_at_target earlier alone asking
  have untouched : conflict.after.backends.objects = conflict.before.backends.objects := by
    rw [after]
    rfl
  refine ⟨lineage, listed, fun declared => ?_⟩
  unfold KeepsTracked
  rw [untouched]
  constructor
  · intro keeps place tracked former
    exact (holds place former).mp (keeps place tracked former)
  · intro spared place tracked former
    exact (holds place former).mpr (spared place tracked former)

/-- A source of files. -/
def editedSource : Reference :=
  { apiGroup := none, kind := Reference.datasourceKind, name := "x", ns := some "team-a" }

/-- A document that has one synced file and does not declare it any more. -/
def shrunkDocument : Document :=
  { metadata := { Metadata.empty with
      name := some "ds-v1", ns := some "team-a"
      labels := some ((OrderedMap.empty.insert Document.versionLabel "v1").insert
        Document.ownerLabel "ds")
      finalizers := some [Document.finalizer] }
    spec := { dataset := { apiGroup := none, kind := "Dataset", name := "ds", ns := none }
              version := "v1", inheritedFrom := none, fileGroups := [], released := false }
    status := some
      { conditions := []
        files := [⟨editedSource, [.blank "a.txt" .succeeded]⟩] } }

/-- The shrunk document as it is first stored. -/
def shrunkVersion : Document := DocumentStore.withToken shrunkDocument "1"

/-- An edit of the shrunk document, by which it declares its file again. -/
def editedDocument : Document :=
  { shrunkVersion with
    spec := { shrunkVersion.spec with
      fileGroups := [{ source := editedSource, paths := ["a.txt"] }] } }

/-- The shrunk document, and the object of its file. -/
def shrunkBackends : Backends :=
  { objects := ObjectStore.empty.putObject "team-a" "dataset/ds/v1/a.txt"
    documents := (DocumentStore.empty.insert shrunkDocument).2
    table := default
    now := "2024-05-01T00:00:00+00:00" }

/-- The edited document as it is stored. -/
def editedVersion : Document := DocumentStore.withToken editedDocument "2"

/-- The place of the one file. -/
def editedPlace : ObjectAddress := ⟨"team-a", "dataset/ds/v1/a.txt"⟩

/-- The edited version tracks its file: it records it as synced and declares it. -/
theorem tracks_edited {engine : Engine}
    (stored : engine.stored? editedVersion.key = some editedVersion) :
    engine.Tracks editedVersion.key [] editedPlace := by
  refine ⟨editedVersion, ⟨"team-a", "x"⟩, .blank "a.txt" .succeeded, stored, ?_, rfl, ?_, rfl⟩
  · exact ⟨⟨editedSource, [.blank "a.txt" .succeeded]⟩, List.mem_cons_self, rfl, List.mem_cons_self⟩
  · exact ⟨.blank "a.txt" .processing, ⟨⟨editedSource, [.blank "a.txt" .processing]⟩,
      List.mem_cons_self, rfl, List.mem_cons_self⟩, rfl⟩

/-- A document is edited so that it declares its file again, while a look works on the version
before. The look removes the object of the file, and then its write is refused. -/
theorem removed_under_edit :
    ∃ past conflict,
      Execution default (idle shrunkBackends .empty [shrunkVersion]) (past ++ [conflict])
        conflict.after ∧
      (∀ transition ∈ past, transition.event.Alone) ∧
      (∃ token target, conflict.event =
        .asked 0 (.call (.document (.patchStatus shrunkVersion.key token target)))
          (.error (.conflict shrunkVersion.key))) ∧
      conflict.after.stored? editedVersion.key = some editedVersion ∧
      ¬ conflict.after.backends.objects.Holds editedPlace := by
  have edited : Execution default (idle shrunkBackends .empty [shrunkVersion]) _ _ :=
    Execution.start.step (.write (.update editedDocument))
  have begun := edited.step (@Step.begin default _ shrunkVersion List.mem_cons_self)
  have clocked := begun.step (@Step.call default _ 0 shrunkVersion .clock _ rfl)
  have synced := clocked.step (@Step.sync default _ 0 shrunkVersion _ _ rfl)
  have observed := synced.step
    (@Step.run default _ 0 _ _ _ rfl (.work (.observe _) (.internal _ _)))
  have checked := observed.step
    (@Step.run default _ 0 _ _ _ rfl (.work (.call _ _ _) (.called _ _ _)))
  have continued := checked.step
    (@Step.run default _ 0 _ _ _ rfl (.work (.observe _) (.internal _ _)))
  have queued := continued.step
    (@Step.run default _ 0 _ _ _ rfl (.work (.enqueue _ _ rfl) (.internal _ _)))
  have started := queued.step
    (@Step.run default _ 0 _ _ _ rfl (.work (.start rfl rfl nofun) (.internal _ _)))
  have executed := started.step
    (@Step.run default _ 0 _ _ _ rfl (.work (.finish 0 _ _ rfl) (.executed _ rfl)))
  have delivered := executed.step
    (@Step.run default _ 0 _ _ _ rfl (.work (.deliver _ _ _ rfl) (.delivered _ _ _ _)))
  have ended := delivered.step (@Step.run default _ 0 _ _ _ rfl (.conclude _ _ rfl))
  have reread := ended.step (@Step.run default _ 0 _ _ _ rfl (.call _ _ _ _))
  have resumed := reread.step (@Step.resume default _ 0 0 shrunkVersion _ _ _ _ rfl rfl rfl)
  have refused := resumed.step
    (@Step.call default _ 0 shrunkVersion (.document (.patchStatus _ _ _)) _ rfl)
  refine ⟨_, _, refused, by decide, ⟨_, _, rfl⟩, rfl, fun present => ?_⟩
  exact nomatch (present : false = true)

/-- A look at a stale version, of which the status write is refused, has removed the object of
a file that the stored version tracks. -/
theorem stale_look_removes_tracked :
    ∃ past conflict,
      Execution default (idle shrunkBackends .empty [shrunkVersion]) (past ++ [conflict])
        conflict.after ∧
      (∀ transition ∈ past, transition.event.Alone) ∧
      (∃ token target, conflict.event =
        .asked 0 (.call (.document (.patchStatus shrunkVersion.key token target)))
          (.error (.conflict shrunkVersion.key))) ∧
      ¬ conflict.after.KeepsTracked shrunkBackends.objects shrunkVersion.key [] := by
  obtain ⟨past, conflict, execution, alone, conflicts, stored, gone⟩ := removed_under_edit
  refine ⟨past, conflict, execution, alone, conflicts, fun keeps => ?_⟩
  exact gone (keeps editedPlace (tracks_edited stored) rfl)

/-- The stale look of the edited document records, and does not declare, a file at the place of
a tracked one. -/
theorem stale_look_strays_in_edit :
    ∃ (past : List Transition) (lineage : List String) (place : ObjectAddress),
      HasListed past shrunkVersion lineage ∧ shrunkBackends.objects.Holds place ∧
        shrunkVersion.Strays lineage place ∧ ¬ shrunkBackends.objects.Refuses place := by
  obtain ⟨past, conflict, execution, alone, ⟨token, target, conflicts⟩, stored, gone⟩ :=
    removed_under_edit
  obtain ⟨lineage, listed, keeps_iff⟩ := stale_look_keeps_tracked_iff execution alone conflicts
  by_contra none
  have spared : conflict.after.KeepsTracked shrunkBackends.objects shrunkVersion.key [] := by
    apply (keeps_iff []).mpr
    intro place tracked former stray
    by_contra allowed
    exact none ⟨past, lineage, place, listed, former, stray, allowed⟩
  exact gone (spared editedPlace (tracks_edited stored) rfl)

end Engine

end DatasetSync
