import DatasetSync.Proofs.Engine.Open
import DatasetSync.Proofs.Engine.Writes

/-!
# Versions that were read

A look works on a version that was read at some time, and a run reads its document again when
it concludes. By the time that one of them writes, the version may have been replaced, and its
key may even hold a new document. But a token names one version: if the stored version bears
the token of the one that was read, then it is the one that was read, whatever happened in
between.

This holds in open executions from any sound store, as long as no version counts as read that
was never stored.
-/

namespace DatasetSync

namespace DocumentStore

/-- A version that was stored at some time: its token was given out, and what is stored under
that token now is this version, under its own key. -/
structure Recalls (store : DocumentStore) (document : Document) : Prop where
  numbered : ∃ number, number ≤ store.issued ∧ document.versionToken = some (toString number)
  same : ∀ key version, store.get? key = some version →
    version.versionToken = document.versionToken → key = document.key ∧ version = document

variable {store before after : DocumentStore} {document : Document}

/-- A stored version is recalled: as long as its token is stored it is this version, and the token
was given out. -/
theorem Sound.recalls (sound : store.Sound) {key : QualifiedName}
    (found : store.get? key = some document) : store.Recalls document where
  numbered := sound.numbered key document found
  same other version found' token := by
    have own : document.key = key := sound.keyed key document found
    have sameKey : other = key := sound.distinct other key version document found' found token
    subst sameKey
    exact ⟨own.symm, Option.some.inj (found'.symm.trans found)⟩

/-- A version that was stored once is recalled ever after, also when it is stored no more. -/
theorem Recalls.later (recalls : before.Recalls document) (later : Later before after) :
    after.Recalls document := by
  obtain ⟨number, bound, token⟩ := recalls.numbered
  refine ⟨⟨number, Nat.le_trans bound later.issued, token⟩, ?_⟩
  intro key version found same
  have held : before.get? key = some version :=
    later.held key version number found (same.trans token) bound
  exact recalls.same key version held same

end DocumentStore

namespace Engine

variable {policy : Policy} {history : List Transition} {before after finish : Engine}
  {event : Event}

/-- The store is sound, and it recalls the versions that were read, by whom ever. -/
structure Snapshots (history : List Transition) (engine : Engine) : Prop where
  sound : engine.backends.documents.Sound
  seen : ∀ document ∈ engine.seen, engine.backends.documents.Recalls document
  /-- A run has read the version before it concludes. -/
  reread : ∀ (number : Nat) (plan : SyncPlan) (latest : Document),
    plan.reading (some latest) ∈ runExchanges number history →
      engine.backends.documents.Recalls latest

/-- What a run reads in a move is the stored version, under the key of its plan and at that very
move. -/
theorem found_of_reading {number : Nat} {plan : SyncPlan} {latest : Document}
    (reading : plan.reading (some latest) ∈
      ((⟨before, event, after⟩ : Transition).runExchange? number).toList) :
    before.stored? plan.document.key = some latest := by
  have made : plan.reading (some latest) ∈ runExchanges number [⟨before, event, after⟩] := by
    rw [← List.nil_append [_], runExchanges_concat]
    exact reading
  obtain ⟨past, transition, recent, whole, -, run, next, -, -, answered⟩ :=
    exists_of_mem_runExchanges made
  have own : (⟨before, event, after⟩ : Transition) = transition := by
    cases past with
    | nil => exact (List.cons.inj whole).1
    | cons first past => simp at whole
  subst own
  exact Except.ok.inj answered

/-- Every move keeps the versions that were read in mind, those of looks and those of runs. -/
theorem Snapshots.step (snapshots : Snapshots history before)
    (coherent : Coherent policy history before) (move : Step policy before event after) :
    Snapshots (history ++ [⟨before, event, after⟩]) after := by
  have succession := coherent.succession snapshots.sound.keyed move
  have later := succession.later
  refine ⟨snapshots.sound.succession succession, ?seen, ?reread⟩
  case seen =>
    intro document seen
    rcases move.seen_cases seen with former | ⟨-, key, found⟩
    · exact (snapshots.seen document former).later later
    · exact (snapshots.sound.recalls found).later later
  case reread =>
    intro number plan latest reading
    rw [runExchanges_concat] at reading
    rcases List.mem_append.mp reading with former | now
    · exact (snapshots.reread number plan latest former).later later
    · exact (snapshots.sound.recalls (found_of_reading now)).later later

/-- In every open execution the versions that were read are recalled. The induction is on the moves;
changes around the engine touch no document. -/
theorem snapshots_of_openExecution {backends : Backends} {registry : Registry}
    (sound : backends.documents.Sound)
    (execution : OpenExecution policy (idle backends registry []) history finish) :
    Snapshots history finish := by
  induction execution with
  | start =>
    refine ⟨sound, ?_, ?_⟩
    · intro document seen
      cases seen
    · intro number plan latest reading
      cases reading
  | step past move ih => exact ih.step (coherent_of_openExecution past) move
  | change objects table past ih => exact ⟨ih.sound, ih.seen, ih.reread⟩

end Engine

end DatasetSync
