import DatasetSync.Proofs.Controller.Effect
import DatasetSync.Proofs.Controller.Look
import DatasetSync.Proofs.Controller.Marking
import DatasetSync.Proofs.Store.Versions

/-!
# The turns of a document

A round rests if it leaves the stored version of its document as it was, or the document is
gone. If it does not rest, its document has taken one of three turns: labels and finalizer were
put on; the status was brought in line with the declaration, after what is not declared any more
was removed; or nothing was to be brought in line, files were copied, and the run has committed a
status that differs from the stored one.

A round over a document that is being deleted always rests.
-/

namespace DatasetSync

/-- A round has left the stored version of a document as it was, or the document is gone. -/
def Rests (key : QualifiedName) (before after : Backends) : Prop :=
  after.documents.get? key = none ∨ after.documents.get? key = before.documents.get? key

/-- A round has left the token of a document as it was, or the document is gone. -/
def Settled (key : QualifiedName) (before after : Backends) : Prop :=
  after.documents.get? key = none ∨
    (after.documents.get? key).map Document.versionToken =
      (before.documents.get? key).map Document.versionToken

/-- Whatever leaves the stored version as it was leaves its token as it was. -/
theorem Rests.settled {key : QualifiedName} {before after : Backends}
    (rests : Rests key before after) : Settled key before after :=
  rests.imp_right (congrArg _)

/-- A target is written over the version that it was made from, and changes nothing of it but status
and token. -/
theorem DocumentStore.get?_targeted {store : DocumentStore} {document : Document}
    {target : Status} {token : String} (found : store.get? document.key = some document)
    (snapshot : document.versionToken = some token) :
    (store.targeted document target).get? document.key =
      some (withToken { document with status := some target } store.nextToken) := by
  rw [targeted, snapshot]
  exact (get?_patchStatus_of_current found snapshot target document.key).trans (if_pos rfl)

namespace Document

variable {document marked : Document}

/-- A document that gets labels and finalizer has them then, and nothing else changes. -/
theorem marked?_eq_some (unmarked : document.marked? = some marked) :
    marked.isMarked = true ∧ ∃ labels finalizers, marked = { document with
      metadata := { document.metadata with labels, finalizers } } := by
  have marks := marks_of_marked? unmarked
  exact ⟨marked?_eq_none_iff.mp marks.settled, _, _, marks.rest⟩

end Document

/-- What a round that does not rest has made of a document and of the objects. -/
inductive Document.Turn (document : Document) (before : ObjectStore) :
    Document → ObjectStore → Prop
  /-- Labels and finalizer were put on. -/
  | marked {marked : Document} {token : String} {after : ObjectStore}
      (unmarked : document.marked? = some marked) :
      Turn document before
        (DocumentStore.withToken { marked with status := document.status } token) after
  /-- The status was brought in line with the declaration. -/
  | aligned {now : Timestamp} {lineage : List String} {token : String} {after : ObjectStore}
      (marked : document.isMarked = true) (listed : document.lineageIn before = .ok lineage)
      (due : (document.reconcile now lineage).deleted = [] →
        (document.reconcile now lineage).statusChanged = true)
      (fewer : ∀ place, after.Holds place → before.Holds place)
      (kept : (document.reconcile now lineage).deleted = [] →
        ∀ place, before.Holds place → after.Holds place) :
      Turn document before (DocumentStore.withToken
        { document with status := some (document.reconcile now lineage).target } token) after
  /-- A copy run has committed a status that differs from the stored one. -/
  | committed {now now' : Timestamp} {lineage : List String}
      {completions : List SyncPlan.Completion} {tree : FileTree} {token : String}
      {after : ObjectStore} (marked : document.isMarked = true)
      (listed : document.lineageIn before = .ok lineage)
      (nothing : (document.reconcile now lineage).deleted = [])
      (unchanged : (document.reconcile now lineage).statusChanged = false)
      (recorded : tree = SyncPlan.recordAll document.datasetName completions
        (document.reconcile now lineage).target.files)
      (differs : document.status ≠ some (SyncPlan.commitStatus document.status tree now'))
      (kept : ∀ place, before.Holds place → after.Holds place)
      (copies : ∀ place, after.Holds place → before.Holds place ∨
        ∃ group ∈ (document.reconcile now lineage).target.files, ∃ file ∈ group.files,
          place = ⟨document.datasetNs,
            Layout.objectKey document.datasetName document.spec.version file.path⟩) :
      Turn document before (DocumentStore.withToken
        { document with
          status := some (SyncPlan.commitStatus document.status tree now') } token) after

section Look

variable {policy : Policy} {document : Document} {before middle after : Backends}
  {launched : List SyncPlan} {result : Except ReconcileError Next}

/-- What a look does at a document that is alive, labelled and guarded: how it ends, and what it
launches. -/
inductive Policy.Advances (policy : Policy) (document : Document) (before after : Backends) :
    Except ReconcileError Next → List SyncPlan → Prop
  /-- The parent version cannot be listed. -/
  | unlisted {error : StorageError}
      (failed : document.lineageIn before.objects = .error error)
      (same : after.documents = before.documents) (alike : before.objects.Alike after.objects) :
      Advances policy document before after (.error (.storage error)) []
  /-- What is not declared any more is removed; then the target is written, unless the removal
  has failed. -/
  | cleared {now : Timestamp} {lineage : List String} {result : Except ReconcileError Next}
      (listed : document.lineageIn before.objects = .ok lineage)
      (strays : (document.reconcile now lineage).deleted ≠ [])
      (fewer : ∀ place, after.objects.Holds place → before.objects.Holds place)
      (documents : (result = .ok (.requeue policy.requeueAfter) ∧
          after.documents = before.documents) ∨ after.documents =
        before.documents.targeted document (document.reconcile now lineage).target) :
      Advances policy document before after result []
  /-- What is new is entered. -/
  | entered {now : Timestamp} {lineage : List String} {result : Except ReconcileError Next}
      (listed : document.lineageIn before.objects = .ok lineage)
      (nothing : (document.reconcile now lineage).deleted = [])
      (new : (document.reconcile now lineage).statusChanged = true)
      (alike : before.objects.Alike after.objects)
      (written : after.documents =
        before.documents.targeted document (document.reconcile now lineage).target) :
      Advances policy document before after result []
  /-- Nothing is to be brought in line, and a copy is launched. -/
  | launched {now : Timestamp} {lineage : List String}
      (listed : document.lineageIn before.objects = .ok lineage)
      (nothing : (document.reconcile now lineage).deleted = [])
      (unchanged : (document.reconcile now lineage).statusChanged = false)
      (alike : before.objects.Alike after.objects) (same : after.documents = before.documents) :
      Advances policy document before after (.ok .awaitChange)
        [document.targetCopy now lineage policy.sizing]

/-- The removal of files of a document that is alive takes objects away, and writes nothing. It
could release or commit only for a deleted document or as a copy. -/
theorem removal_of_runs {deleted : FileTree} {sizing : Pool.Sizing}
    {outcome : Except SyncError RunOutcome}
    (found : before.documents.get? document.key = some document)
    (living : document.isDeleting = false)
    (runs : (SyncPlan.removing document deleted sizing).Runs before outcome after) :
    after.documents = before.documents ∧
      ∀ place, after.objects.Holds place → before.objects.Holds place := by
  obtain ⟨⟨completions, concludes⟩, gains, -⟩ := runs.effect
  refine ⟨?_, fun place held => ?_⟩
  · cases concludes with
    | kept same => exact same
    | released found' deleting cleared =>
      obtain rfl := Option.some.inj (found.symm.trans found')
      rw [living] at deleting
      cases deleting
    | written found' accepts => exact absurd rfl accepts.copies
  · rcases gains place held with former | ⟨copies, -⟩
    · exact former
    · exact absurd rfl copies

/-- What is done about an outcome that asks for something: with nothing to remove the target is
entered at once, and with something to remove it is written after the removal, unless that has
failed. -/
theorem advances_of_apply {now : Timestamp} {lineage : List String} {start : Backends}
    (found : before.documents.get? document.key = some document)
    (living : document.isDeleting = false)
    (listed : document.lineageIn start.objects = .ok lineage)
    (documents : before.documents = start.documents) (alike : start.objects.Alike before.objects)
    (due : (document.reconcile now lineage).deleted = [] →
      (document.reconcile now lineage).statusChanged = true)
    (carries : Carries (policy.applyOutcome document (document.reconcile now lineage)) before
      result launched after) : policy.Advances document start after result launched := by
  unfold Policy.applyOutcome at carries
  split at carries
  · rename_i empty
    have nothing := List.isEmpty_iff.mp empty
    rw [← Program.bind_done (Controlling.calling _)] at carries
    obtain ⟨reached, middle, performs, rest⟩ := Carries.calling carries
    cases rest
    obtain ⟨written, objects⟩ := performs.target
    refine .entered listed nothing (due nothing) (objects ▸ alike) ?_
    rw [written, documents]
  · rename_i some
    have strays : (document.reconcile now lineage).deleted ≠ [] :=
      fun nothing => some (List.isEmpty_iff.mpr nothing)
    cases carries with
    | @sync _ _ _ middle _ outcome _ _ runs later =>
      obtain ⟨spared, fewer⟩ := removal_of_runs found living runs
      have fewer' : ∀ place, middle.objects.Holds place → start.objects.Holds place :=
        fun place held => (alike.holds_iff place).mp (fewer place held)
      dsimp only [Program.done_bind] at later
      split at later
      · cases later
        exact .cleared listed strays fewer' (.inl ⟨rfl, spared.trans documents⟩)
      · rw [← Program.bind_done (Controlling.calling _)] at later
        obtain ⟨reached, last, performs, rest⟩ := Carries.calling later
        cases rest
        obtain ⟨written, objects⟩ := performs.target
        refine .cleared listed strays (objects ▸ fewer') (.inr ?_)
        rw [written, spared, documents]

/-- Every way that a look at a living, labelled and guarded document can take. -/
theorem advances_of_carries {key : String}
    (found : before.documents.get? document.key = some document)
    (living : document.isDeleting = false)
    (carries : Carries (policy.advance key document) before result launched after) :
    policy.Advances document before after result launched := by
  obtain ⟨listing, middle, performs, rest⟩ := Carries.calling carries
  obtain ⟨rfl, documents, alike⟩ := performs.listed
  cases listed : document.lineageIn before.objects with
  | error error =>
    rw [listed] at rest
    cases rest
    exact .unlisted listed documents alike
  | ok lineage =>
    rw [listed] at rest
    obtain ⟨now, middle', performs', rest'⟩ := Carries.calling rest
    obtain ⟨documents', objects'⟩ := performs'.clock
    have alike' : before.objects.Alike middle'.objects := objects' ▸ alike
    have same : middle'.documents = before.documents := documents'.trans documents
    dsimp only [Program.done_bind] at rest'
    split at rest'
    · rename_i due
      refine advances_of_apply (same ▸ found) living listed same alike' (fun nothing => ?_) rest'
      simpa [nothing] using due
    · rename_i idle
      simp only [Bool.or_eq_true, Bool.not_eq_true', not_or, Bool.not_eq_true,
        Bool.not_eq_false, List.isEmpty_iff] at idle
      cases rest' with
      | launch id last =>
        cases last
        exact .launched listed idle.2 idle.1 alike' same

/-- After a look at a deleted document, the document is as it was or gone. -/
theorem rests_of_finalize {key : String}
    (found : before.documents.get? document.key = some document)
    (deleting : document.isDeleting = true)
    (carries : Carries (policy.finalize key document) before result launched after) :
    launched = [] ∧ Rests document.key before after := by
  rw [Policy.finalize_eq] at carries
  split at carries
  · cases carries with
    | stop cleanup =>
      obtain ⟨purged, middle, performs, rest⟩ := Carries.calling cleanup
      have spared := performs.documents (Policy.purgeUntracked_spares _ _)
      cases purged with
      | error error =>
        cases rest
        exact ⟨rfl, .inr (congrArg (·.get? document.key) spared)⟩
      | ok =>
        cases rest with
        | @sync _ _ _ last _ outcome _ _ runs later =>
          obtain ⟨⟨completions, concludes⟩, -⟩ := runs.effect
          have ends : launched = [] ∧ after = last := by
            cases outcome <;> (cases later; exact ⟨rfl, rfl⟩)
          obtain ⟨rfl, rfl⟩ := ends
          refine ⟨rfl, ?_⟩
          cases concludes with
          | kept same => exact .inr (by rw [same, spared])
          | written found' accepts => exact absurd rfl accepts.copies
          | released found' _ cleared =>
            rw [spared] at found' cleared
            obtain rfl := Option.some.inj (found.symm.trans found')
            rcases before.documents.update_cases document.unguarded with
              ⟨-, -, same | same⟩ | ⟨stored, -, -, -, -, -, versions⟩
            · exact .inr (by rw [cleared, same])
            · exact .inr (by rw [cleared, same, DocumentStore.get?_issue])
            · refine .inl ((congrArg (·.get? document.key) cleared).trans ((versions _).trans ?_))
              simp [DocumentStore.isReleased, deleting]
  · cases carries
    exact ⟨rfl, .inr rfl⟩

/-- The document has taken a turn. -/
def Document.Turns (document : Document) (before after : Backends) : Prop :=
  ∃ document', after.documents.get? document.key = some document' ∧
    document.Turn before.objects document' after.objects

/-- Labels and finalizer are put on over the version that was read, if anything happens. -/
theorem version_of_mark {marked : Document}
    (found : before.documents.get? document.key = some document)
    (living : document.isDeleting = false) (missing : document.marked? = some marked)
    (performs : Performs (Policy.mark marked) before result after) :
    after.documents.get? document.key = some document ∨
      ∃ token, after.documents.get? document.key =
        some (DocumentStore.withToken { marked with status := document.status } token) := by
  obtain ⟨documents, -⟩ := performs.mark
  obtain ⟨-, labels, finalizers, same⟩ := Document.marked?_eq_some missing
  have own : marked.key = document.key := by
    rw [same]
    rfl
  have alive : DocumentStore.isReleased marked = false := by
    rw [same]
    exact Bool.and_eq_false_iff.mpr (.inl living)
  rcases before.documents.update_cases marked with
    ⟨-, -, kept | kept⟩ | ⟨stored, found', -, -, -, -, versions⟩
  · exact .inl (by rw [documents, kept, found])
  · exact .inl (by rw [documents, kept, DocumentStore.get?_issue, found])
  · rw [own] at found'
    obtain rfl := Option.some.inj (found.symm.trans found')
    refine .inr ⟨before.documents.nextToken, ?_⟩
    rw [documents, versions, if_pos own, alive]
    rfl

/-- A target is written over the version that was read, unless that has no token. -/
theorem version_of_target {target : Status}
    (found : before.documents.get? document.key = some document)
    (written : after.documents = before.documents.targeted document target) :
    after.documents.get? document.key = some document ∨
      ∃ token, after.documents.get? document.key =
        some (DocumentStore.withToken { document with status := some target } token) := by
  rw [written]
  cases snapshot : document.versionToken with
  | none =>
    rw [DocumentStore.targeted, snapshot]
    exact .inl found
  | some token => exact .inr ⟨_, DocumentStore.get?_targeted found snapshot⟩

/-- The copy that a look has launched leaves the version alone, or commits a status that differs
from the stored one. -/
theorem version_of_copy {now : Timestamp} {lineage : List String} {sizing : Pool.Sizing}
    {tree : FileTree} (found : before.documents.get? document.key = some document)
    (living : document.isDeleting = false)
    (concludes : (document.targetCopy now lineage sizing).Concludes tree before.documents
      after.documents) :
    after.documents.get? document.key = some document ∨
      ∃ token now', document.status ≠ some (SyncPlan.commitStatus document.status tree now') ∧
        after.documents.get? document.key = some (DocumentStore.withToken
          { document with status := some (SyncPlan.commitStatus document.status tree now') }
          token) := by
  cases concludes with
  | kept same => exact .inl (by rw [same, found])
  | released found' deleting =>
    obtain rfl := Option.some.inj (found.symm.trans found')
    rw [living] at deleting
    cases deleting
  | @written latest token now' found' accepts differs patched =>
    obtain rfl := Option.some.inj (found.symm.trans found')
    refine .inr ⟨before.documents.nextToken, now', differs, ?_⟩
    rw [patched]
    exact (DocumentStore.get?_patchStatus_of_current found accepts.current _ _).trans (if_pos rfl)

/-- Labels and finalizer are put on, if anything happens. A refused update leaves the round at
rest. -/
theorem turn_of_mark {marked : Document}
    (found : before.documents.get? document.key = some document)
    (living : document.isDeleting = false) (missing : document.marked? = some marked)
    (performs : Performs (Policy.mark marked) before result after) :
    Rests document.key before after ∨ document.Turns before after := by
  rcases version_of_mark found living missing performs with same | ⟨token, replaced⟩
  · exact .inl (.inr (same.trans found.symm))
  · exact .inr ⟨_, replaced, .marked missing⟩

/-- What was written to the target is a turn, provided that it is one for every token the store may
have issued. Without a token to write under, the round rests. -/
theorem turn_of_target {target : Status}
    (found : before.documents.get? document.key = some document)
    (written : after.documents = before.documents.targeted document target)
    (turn : ∀ token, document.Turn before.objects
      (DocumentStore.withToken { document with status := some target } token) after.objects) :
    Rests document.key before after ∨ document.Turns before after := by
  rcases version_of_target found written with same | ⟨token, replaced⟩
  · exact .inl (.inr (same.trans found.symm))
  · exact .inr ⟨_, replaced, turn token⟩

/-- The copy that a look has launched leaves the version alone, or commits a status that differs
from the stored one. It keeps all objects, and adds none outside the places of its target. -/
theorem turn_of_copy {now : Timestamp} {lineage : List String} {sizing : Pool.Sizing}
    {outcome : Except SyncError RunOutcome}
    (found : before.documents.get? document.key = some document)
    (living : document.isDeleting = false) (marked : document.isMarked = true)
    (listed : document.lineageIn before.objects = .ok lineage)
    (nothing : (document.reconcile now lineage).deleted = [])
    (unchanged : (document.reconcile now lineage).statusChanged = false)
    (alike : before.objects.Alike middle.objects) (same : middle.documents = before.documents)
    (runs : (document.targetCopy now lineage sizing).Runs middle outcome after) :
    Rests document.key before after ∨ document.Turns before after := by
  obtain ⟨⟨completions, concludes⟩, gains, keeps⟩ := runs.effect
  rw [← same] at found
  rcases version_of_copy found living concludes with kept | ⟨token, now', differs, replaced⟩
  · exact .inl (.inr (by rw [kept, ← same, found]))
  · refine .inr ⟨_, replaced, .committed marked listed nothing unchanged rfl differs
      (fun place held => keeps rfl place ((alike.holds_iff place).mpr held))
      (fun place held => ?_)⟩
    rcases gains place held with former | ⟨-, own⟩
    · exact .inl ((alike.holds_iff place).mp former)
    · exact .inr own

/-- A look and the run that it has launched leave the version alone, or the document takes a
turn. -/
theorem turn_of_advances (found : before.documents.get? document.key = some document)
    (living : document.isDeleting = false) (marked : document.isMarked = true)
    (advances : policy.Advances document before middle result launched)
    (finished : RunAll launched middle after) :
    Rests document.key before after ∨ document.Turns before after := by
  cases advances with
  | unlisted failed same =>
    cases finished
    exact .inl (.inr (by rw [same]))
  | cleared listed strays fewer documents =>
    cases finished
    rcases documents with ⟨-, same⟩ | written
    · exact .inl (.inr (by rw [same]))
    · exact turn_of_target found written fun token => .aligned marked listed
        (fun nothing => absurd nothing strays) fewer fun nothing => absurd nothing strays
  | entered listed nothing new alike written =>
    cases finished
    exact turn_of_target found written fun token => .aligned marked listed (fun _ => new)
      (fun place => (alike.holds_iff place).mp) fun _ place => (alike.holds_iff place).mpr
  | launched listed nothing unchanged alike same =>
    cases finished with
    | cons runs later =>
      cases later
      exact turn_of_copy found living marked listed nothing unchanged alike same runs

/-- Every way that a look at a document can take. -/
inductive Policy.Looks (policy : Policy) (document : Document) (before after : Backends) :
    Except ReconcileError Next → List SyncPlan → Prop
  | nameless (missing : document.metadata.ns = none) (same : after = before) :
      Looks policy document before after (.error .missingObjectKey) []
  | deleting {result : Except ReconcileError Next} (deleting : document.isDeleting = true)
      (rests : Rests document.key before after) : Looks policy document before after result []
  | marked {marked : Document} {result : Except ReconcileError Next}
      (named : document.metadata.ns ≠ none) (living : document.isDeleting = false)
      (missing : document.marked? = some marked)
      (performs : Performs (Policy.mark marked) before result after) :
      Looks policy document before after result []
  | advanced {result : Except ReconcileError Next} {launched : List SyncPlan}
      (living : document.isDeleting = false) (marked : document.isMarked = true)
      (advances : policy.Advances document before after result launched) :
      Looks policy document before after result launched

/-- A look at a stored document takes one of these ways. The first question that decides is whether
the document is deleted, the next one whether labels or finalizer are missing. -/
theorem looks_of_carries (found : before.documents.get? document.key = some document)
    (carried : Carries (policy.reconcile document) before result launched after) :
    policy.Looks document before after result launched := by
  unfold Policy.reconcile at carried
  split at carried
  · rename_i missing
    cases carried
    exact .nameless missing rfl
  rename_i named
  have named : document.metadata.ns ≠ none := by simp [named]
  split at carried
  · rename_i deleting
    obtain ⟨rfl, rests⟩ := rests_of_finalize found deleting carried
    exact .deleting deleting rests
  rename_i living
  rw [Bool.not_eq_true] at living
  cases missing : document.marked? with
  | some marked =>
    rw [missing] at carried
    dsimp only at carried
    rw [← Program.bind_done (Controlling.calling _)] at carried
    obtain ⟨reached, middle, performs, rest⟩ := Carries.calling carried
    cases rest
    exact .marked named living missing performs
  | none =>
    rw [missing] at carried
    exact .advanced living (Document.marked?_eq_none_iff.mp missing)
      (advances_of_carries found living carried)

end Look

/-- A round rests, or its document takes a turn. Each way of the look is followed to its end and
through the run that it may have launched; what is left then is to name the document. -/
theorem Round.cases {policy : Policy} {key : QualifiedName} {before after : Backends}
    (keyed : ∀ document, before.documents.get? key = some document → document.key = key)
    (round : Round policy key before after) :
    Rests key before after ∨ ∃ document, document.key = key ∧
      before.documents.get? key = some document ∧ document.Turns before after := by
  cases round with
  | gone absent same =>
    rw [same]
    exact .inl (.inl absent)
  | @looked document result launched middle found carried finished =>
    obtain rfl := keyed document found
    suffices either : Rests document.key before after ∨ document.Turns before after from
      either.imp_right fun turns => ⟨document, rfl, found, turns⟩
    cases looks_of_carries found carried with
    | nameless missing same =>
      cases finished
      exact .inl (.inr (by rw [same]))
    | deleting deleting rests =>
      cases finished
      exact .inl rests
    | marked named living missing performs =>
      cases finished
      exact turn_of_mark found living missing performs
    | advanced living marked advances =>
      exact turn_of_advances found living marked advances finished

end DatasetSync
