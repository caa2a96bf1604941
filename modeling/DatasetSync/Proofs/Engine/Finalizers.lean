import DatasetSync.Proofs.Controller.Marking
import DatasetSync.Proofs.Engine.LostUpdate
import DatasetSync.Proofs.Engine.Snapshots

/-!
# The finalizers of others

Others put finalizers of their own on a document, to keep it until they have cleaned up. The
engine writes whole metadata in two places. A look that marks a document puts its own
finalizer behind those that it has read. A run that concludes on a deleted document writes it
back without any finalizers, its own and those of others alike, which lets the document go.

So the finalizers of others survive every write of the engine, in order, but the one by which
a run releases a document that it has read as deleted. What others write meanwhile cannot be
lost: each of these writes goes through only over the version that was read.
-/

namespace DatasetSync

namespace Document

/-- The finalizers that others have put on the document, in their order. -/
def foreignFinalizers (document : Document) : List String :=
  document.finalizers.filter (· ≠ finalizer)

/-- Neither status nor token matters for the finalizers of others, which are part of the
metadata. -/
@[simp] theorem foreignFinalizers_withToken (document : Document) (status : Option Status)
    (token : String) :
    (DocumentStore.withToken { document with status } token).foreignFinalizers =
      document.foreignFinalizers := rfl

/-- A document that is marked keeps the finalizers of others, in their order. -/
theorem foreignFinalizers_of_marked? {document marked : Document}
    (unmarked : document.marked? = some marked) :
    marked.foreignFinalizers = document.foreignFinalizers := by
  rw [foreignFinalizers, finalizers_of_marked? unmarked, List.filter_append]
  split <;> simp [foreignFinalizers]

/-- A document that is marked keeps its key and its token, and lives on if it did before. -/
theorem marked?_keeps {document marked : Document} (unmarked : document.marked? = some marked) :
    marked.key = document.key ∧ marked.versionToken = document.versionToken ∧
      marked.isDeleting = document.isDeleting := by
  rw [(marks_of_marked? unmarked).rest]
  exact ⟨rfl, rfl, rfl⟩

end Document

namespace DocumentStore

variable {store : DocumentStore} {key : QualifiedName} {version document : Document}

/-- The key holds a version with the same finalizers of others. -/
def HoldsForeign (store : DocumentStore) (key : QualifiedName) (version : Document) : Prop :=
  ∃ next, store.get? key = some next ∧ next.foreignFinalizers = version.foreignFinalizers

/-- A patch keeps all finalizers, whether it is taken or refused. -/
theorem holdsForeign_patchStatus (found : store.get? key = some version)
    (patched : QualifiedName) (token : String) (status : Status) :
    (store.patchStatus patched token status).2.HoldsForeign key version := by
  rcases store.patchStatus_cases patched token status with ⟨-, -, same⟩ |
    ⟨stored, present, -, -, -, versions⟩
  · rw [same]
    exact ⟨version, found, rfl⟩
  · by_cases own : patched = key
    · subst own
      obtain rfl : stored = version := Option.some.inj (present.symm.trans found)
      exact ⟨_, (versions patched).trans (if_pos rfl), rfl⟩
    · exact ⟨version, ((versions key).trans (if_neg own)).trans found, rfl⟩

/-- An update of a living document keeps the finalizers of others, if it brings along those of
the version that it replaces. -/
theorem holdsForeign_update (found : store.get? key = some version)
    (living : document.isDeleting = false)
    (brings : version.versionToken = document.versionToken →
      document.foreignFinalizers = version.foreignFinalizers) :
    (store.update document).2.HoldsForeign key version := by
  rcases store.update_cases document with ⟨-, -, same | same⟩ |
    ⟨stored, present, current, -, -, -, versions⟩
  · rw [same]
    exact ⟨version, found, rfl⟩
  · rw [same]
    exact ⟨version, found, rfl⟩
  · by_cases own : document.key = key
    · subst own
      obtain rfl : stored = version := Option.some.inj (present.symm.trans found)
      have kept : isReleased document = false := by simp [isReleased, living]
      refine ⟨_, (versions document.key).trans ((if_pos rfl).trans (if_neg (by simp [kept]))), ?_⟩
      rw [Document.foreignFinalizers_withToken]
      exact brings current
    · exact ⟨version, ((versions key).trans (if_neg own)).trans found, rfl⟩

/-- A deleted document that is written back without finalizers is taken away if it is the stored
version, and no other document is touched. An update of another version is refused, since its token
is not the stored one. -/
theorem get?_update_unguarded (recalls : store.Recalls document)
    (deleting : document.isDeleting = true) (found : store.get? key = some version) :
    (store.update document.unguarded).2.get? key =
      if version = document ∧ document.metadata.ns ≠ none then none else some version := by
  have released : isReleased document.unguarded = true := by simp [isReleased, deleting]
  rcases store.update_cases document.unguarded with ⟨error, failed, untouched⟩ |
    ⟨stored, present, current, named, -, -, versions⟩
  · have kept : (store.update document.unguarded).2.get? key = some version := by
      rcases untouched with same | same <;> rw [same]
      · exact found
      · exact found
    rw [kept, if_neg]
    rintro ⟨rfl, named⟩
    obtain ⟨rfl, -⟩ := recalls.same key version found rfl
    have succeeds : (store.update version.unguarded).1 = _ := update_of_current named found rfl
    rw [failed] at succeeds
    cases succeeds
  · obtain ⟨own, rfl⟩ := recalls.same _ stored present current
    rw [versions key]
    by_cases same : stored.key = key
    · obtain rfl : stored = version := by
        rw [Document.key_unguarded, same] at present
        exact Option.some.inj (present.symm.trans found)
      have here : stored.unguarded.key = key := same
      rw [if_pos here, if_pos released, if_pos ⟨rfl, named⟩]
    · have elsewhere : ¬ stored.unguarded.key = key := same
      rw [if_neg elsewhere, if_neg, found]
      rintro ⟨rfl, -⟩
      exact same (recalls.same key version found rfl).1.symm

end DocumentStore

namespace Engine

variable {policy : Policy} {history : List Transition} {before after finish : Engine}
  {event : Event} {key : QualifiedName} {version : Document}

/-- In the move a run releases the version: it has read that very version as deleted, and
writes it back without finalizers. -/
structure Transition.Frees (transition : Transition) (version : Document) : Prop where
  deleting : version.isDeleting = true
  named : version.metadata.ns ≠ none
  run : ∃ (number : Nat) (run : EngineRun) (next : _), transition.event = .ran number ∧
    transition.before.runs[number]? = some run ∧
    run.active.stage = .concluding (.ask (.document (.update version.unguarded)) next)

/-- What a write of the engine leaves of a stored version: nothing if a run releases it, else
a version with the same finalizers of others. -/
structure Transition.RespectsForeign (transition : Transition) (key : QualifiedName)
    (version : Document) : Prop where
  freed : transition.Frees version → transition.after.stored? key = none
  kept : ¬ transition.Frees version →
    transition.after.backends.documents.HoldsForeign key version

/-- A look releases nothing, and what it writes keeps the finalizers of others. It writes what it
has read with a finalizer added, and the token says that the stored version is the one that it has
read. -/
theorem Coherent.look_holdsForeign (coherent : Coherent policy history before)
    (snapshots : Snapshots history before) {look : Nat} {document : Document}
    {call : DocumentCall} {next : call.Answer → Controlling (Except ReconcileError Next)}
    (asking : before.looks[look]? =
      some ⟨document, .asking (.ask (.call (.document call)) next)⟩)
    (stored : before.stored? key = some version) :
    (before.backends.documents.answer call).2.HoldsForeign key version := by
  have leads : (policy.reconcile document).Leads (exchanges look history)
      (.ask (.call (.document call)) next) := coherent.follows look document _ asking
  have recalls := snapshots.seen document (coherent.begun look document _ asking).1
  generalize exchanges look history = trail at leads
  cases Policy.looking_of_leads leads with
  | atCall spares => exact absurd rfl (spares call)
  | @atMark marked _ living unmarked =>
    obtain ⟨-, token, lives⟩ := Document.marked?_keeps unmarked
    refine DocumentStore.holdsForeign_update stored (lives.trans living) fun current => ?_
    obtain ⟨-, rfl⟩ := recalls.same key version stored (current.trans token)
    exact Document.foreignFinalizers_of_marked? unmarked
  | atTarget living prepared removed snapshot =>
    exact DocumentStore.holdsForeign_patchStatus stored _ _ _

/-- The run that releases a version in its move stands at that very write, which is the last thing
that it asks for. -/
theorem stage_of_frees {number : Nat} {run : EngineRun}
    (found : before.runs[number]? = some run)
    (frees : (⟨before, .ran number, after⟩ : Transition).Frees version) :
    ∃ next, run.active.stage = .concluding (.ask (.document (.update version.unguarded)) next) := by
  obtain ⟨runner, run', next, ran, found', stage⟩ := frees.run
  cases ran
  obtain rfl : run = run' := Option.some.inj (found.symm.trans found')
  exact ⟨next, stage⟩

/-- A run that writes a deleted version back without finalizers releases that version, and
leaves all others alone. -/
theorem respectsForeign_of_release {number : Nat} {run : EngineRun} {latest : Document}
    {next : Except StoreError Document → Calling (Except SyncError RunOutcome)}
    (recalls : before.backends.documents.Recalls latest) (deleting : latest.isDeleting = true)
    (found : before.runs[number]? = some run)
    (stage : run.active.stage = .concluding (.ask (.document (.update latest.unguarded)) next))
    (written : after.backends.documents = (before.backends.documents.update latest.unguarded).2)
    (stored : before.stored? key = some version) :
    (⟨before, .ran number, after⟩ : Transition).RespectsForeign key version := by
  have left := DocumentStore.get?_update_unguarded recalls deleting stored
  rw [← written] at left
  by_cases freed : version = latest ∧ latest.metadata.ns ≠ none
  · rw [if_pos freed] at left
    obtain ⟨rfl, named⟩ := freed
    refine ⟨fun _ => left, fun unfreed => absurd ?_ unfreed⟩
    exact ⟨deleting, named, number, run, next, rfl, found, stage⟩
  · rw [if_neg freed] at left
    refine ⟨fun frees => absurd ?_ freed, fun _ => ⟨version, left, rfl⟩⟩
    obtain ⟨next', stage'⟩ := stage_of_frees found frees
    have same : latest.unguarded = version.unguarded := by
      rw [stage] at stage'
      injection stage' with stage'
      injection stage' with call
      injection call with call
      injection call
    have token : version.unguarded.versionToken = latest.unguarded.versionToken := by rw [same]
    obtain ⟨-, rfl⟩ := recalls.same key version stored token
    exact ⟨rfl, frees.named⟩

/-- A run that concludes respects the finalizers of others: a patch keeps all of them, and the one
update that it makes is of a deleted version that it has read, which it releases as a whole. -/
theorem Coherent.run_respectsForeign (coherent : Coherent policy history before)
    (snapshots : Snapshots history before) {number : Nat} {run : EngineRun}
    (found : before.runs[number]? = some run)
    (written : after.backends.documents =
      before.backends.documents.afterCall run.active.documentCall?)
    (stored : before.stored? key = some version) :
    (⟨before, .ran number, after⟩ : Transition).RespectsForeign key version := by
  have elsewhere : (∀ next, run.active.stage ≠
        .concluding (.ask (.document (.update version.unguarded)) next)) →
      after.backends.documents.HoldsForeign key version →
      (⟨before, .ran number, after⟩ : Transition).RespectsForeign key version := by
    intro other holds
    refine ⟨fun frees => ?_, fun _ => holds⟩
    obtain ⟨next, stage⟩ := stage_of_frees found frees
    exact absurd stage (other next)
  have unwritten : after.backends.documents = before.backends.documents →
      after.backends.documents.HoldsForeign key version := by
    intro same
    exact ⟨version, (congrArg (·.get? key) same).trans stored, rfl⟩
  cases stage : run.active.stage with
  | working pool =>
    simp only [ActiveRun.documentCall?, stage] at written
    exact elsewhere (by simp [stage]) (unwritten written)
  | concluding rest =>
    obtain ⟨tree, position⟩ := (coherent.made number run found).position stage
    have reread := snapshots.reread number run.active.plan
    generalize runExchanges number history = trail at position reread
    cases position with
    | @atRelease latest next deleting =>
      simp only [ActiveRun.documentCall?, stage] at written
      exact respectsForeign_of_release (reread latest List.mem_cons_self) deleting found stage
        written stored
    | atWrite accepts =>
      simp only [ActiveRun.documentCall?, stage] at written
      refine elsewhere (by simp [stage]) ?_
      rw [written]
      exact DocumentStore.holdsForeign_patchStatus stored _ _ _
    | atRead | atClock | committed | ended =>
      simp only [ActiveRun.documentCall?, stage] at written
      exact elsewhere (by simp [stage]) (unwritten written)

/-- One write of the engine, whatever it is, respects the finalizers of others. Looks and runs are
the only ones that write; every other move of the engine leaves the documents as they are. -/
theorem Coherent.respectsForeign (coherent : Coherent policy history before)
    (snapshots : Snapshots history before) (move : Step policy before event after)
    (engine : ∀ write, event ≠ .wrote write) (stored : before.stored? key = some version) :
    (⟨before, event, after⟩ : Transition).RespectsForeign key version := by
  have written := coherent.documents move
  cases move with
  | write write => exact absurd rfl (engine write)
  | @call look document call next asking =>
    refine ⟨fun frees => ?_, fun _ => ?_⟩
    · obtain ⟨number, run, rest, ran, -⟩ := frees.run
      cases ran
    · cases call with
      | document made => exact coherent.look_holdsForeign snapshots asking stored
      | object | resolve | clock => exact ⟨version, stored, rfl⟩
  | @run number run active backends found move =>
    refine coherent.run_respectsForeign snapshots found ?_ stored
    simpa [documentsAfter, documentCall?, found] using written
  | _ =>
    refine ⟨fun frees => ?_, fun _ => ⟨version, stored, rfl⟩⟩
    obtain ⟨number, run, rest, ran, -⟩ := frees.run
    cases ran

/-- In every move of the engine the finalizers that others have put on a stored document
survive, in their order; only a run that has read this very version as deleted releases it, and
then the document goes. -/
theorem foreign_finalizers_survive {backends : Backends} {registry : Registry}
    (sound : backends.documents.Sound)
    (execution : OpenExecution policy (idle backends registry []) history finish)
    {transition : Transition} (member : transition ∈ history)
    (engine : ∀ write, transition.event ≠ .wrote write)
    (stored : transition.before.stored? key = some version) :
    transition.RespectsForeign key version := by
  induction execution with
  | start => cases member
  | @step history before after event past move ih =>
    rcases List.mem_append.mp member with former | now
    · exact ih former
    · obtain rfl := List.mem_singleton.mp now
      exact (coherent_of_openExecution past).respectsForeign
        (snapshots_of_openExecution sound past) move engine stored
  | change objects table past ih => exact ih member

/-- A document without files that somebody else keeps. -/
def heldDocument : Document :=
  { bareDocument with metadata := { bareDocument.metadata with
      finalizers := some ["example.com/hold"] } }

/-- The held document as it is first stored. -/
def heldVersion : Document := DocumentStore.withToken heldDocument "1"

/-- A look puts the finalizer of the engine behind that of somebody else, which keeps its place. -/
theorem foreign_finalizer_survives_marking : ∃ history transition finish,
    OpenExecution default (idle ⟨.empty, .empty, default, "2024-05-01T00:00:00+00:00"⟩ .empty [])
      history finish ∧ transition ∈ history ∧ (∀ write, transition.event ≠ .wrote write) ∧
    transition.before.stored? heldVersion.key = some heldVersion ∧
    transition.RespectsForeign heldVersion.key heldVersion ∧
    (transition.after.stored? heldVersion.key).map Document.finalizers =
      some ["example.com/hold", Document.finalizer] := by
  have created : Execution default
      (idle ⟨.empty, .empty, default, "2024-05-01T00:00:00+00:00"⟩ .empty []) _ _ :=
    Execution.start.step (.write (.insert heldDocument))
  have read := created.step (@Step.read default _ heldDocument.key heldVersion rfl)
  have begun := read.step (@Step.begin default _ heldVersion List.mem_cons_self)
  have marked := begun.step (@Step.call default _ 0 heldVersion (.document (.update _)) _ rfl)
  refine ⟨_, _, _, marked.open, List.mem_concat_self, ?engine, rfl, ?respects, rfl⟩
  case engine => intro write; nofun
  case respects =>
    refine foreign_finalizers_survive DocumentStore.sound_empty marked.open List.mem_concat_self
      ?_ rfl
    intro write
    nofun

/-- A document without files that somebody else keeps and the engine as well. -/
def sharedDocument : Document :=
  { bareDocument with metadata := { bareDocument.metadata with
      finalizers := some ["example.com/hold", Document.finalizer] } }

/-- The shared document after it was marked deleted. -/
def sharedDeleted : Document :=
  DocumentStore.withToken
    { sharedDocument with metadata := { sharedDocument.metadata with
        deletionTimestamp := some "2024-05-01T00:00:00+00:00" } } "2"

/-- A look at a deleted document purges it and starts a removal run. By the end of that run the
document is gone, though somebody else still keeps it. -/
theorem foreign_finalizer_cleared : ∃ history transition finish,
    Execution default (idle ⟨.empty, .empty, default, "2024-05-01T00:00:00+00:00"⟩ .empty [])
      (history ++ [transition]) finish ∧ (∀ write, transition.event ≠ .wrote write) ∧
    transition.before.stored? sharedDeleted.key = some sharedDeleted ∧
    "example.com/hold" ∈ sharedDeleted.foreignFinalizers ∧
    transition.after.stored? sharedDeleted.key = none := by
  have created : Execution default
      (idle ⟨.empty, .empty, default, "2024-05-01T00:00:00+00:00"⟩ .empty []) _ _ :=
    Execution.start.step (.write (.insert sharedDocument))
  have deleted := created.step (.write (.markDeleted sharedDocument.key))
  have read := deleted.step (@Step.read default _ sharedDocument.key sharedDeleted rfl)
  have begun := read.step (@Step.begin default _ sharedDeleted List.mem_cons_self)
  have stopped := begun.step (@Step.stop default _ 0 sharedDeleted _ _ rfl)
  have purged := stopped.step (@Step.call default _ 0 sharedDeleted (.object _) _ rfl)
  have synced := purged.step (@Step.sync default _ 0 sharedDeleted _ _ rfl)
  have ended := synced.step (@Step.run default _ 0 _ _ _ rfl (.conclude _ _ rfl))
  have reread := ended.step (@Step.run default _ 0 _ _ _ rfl (.call _ _ _ _))
  have cleared := reread.step (@Step.run default _ 0 _ _ _ rfl (.call _ _ _ _))
  refine ⟨_, _, _, cleared, ?engine, rfl, ?foreign, rfl⟩
  case engine => intro write; nofun
  case foreign => decide

end Engine

end DatasetSync
