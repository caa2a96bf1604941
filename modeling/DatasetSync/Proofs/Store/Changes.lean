import DatasetSync.Proofs.Store.Versions

/-!
# What a write changes

Every write of a document store is about the document of one key. Only the writes that present a
token can be refused, and a refused write changes no document, though it may take a token. A
patch that is let through changes the status and the token of the stored version, an update
changes everything but the status. The counts of patches and updates go up with exactly those
that are let through.

The laws hold of any store, whether or not its documents lie under their own keys and bear
tokens that were given out.
-/

namespace DatasetSync

namespace ClientWrite

/-- The key of the document that a write is about. -/
def key : ClientWrite → QualifiedName
  | .insert document => document.key
  | .bump key => key
  | .markDeleted key => key
  | .remove key => key
  | .update document => document.key
  | .patchStatus key _ _ => key

/-- Whether a write replaces a status. -/
def isPatch : ClientWrite → Bool
  | .patchStatus _ _ _ => true
  | _ => false

/-- Whether a write replaces metadata and spec. -/
def isUpdate : ClientWrite → Bool
  | .update _ => true
  | _ => false

end ClientWrite

namespace DocumentStore

variable {store : DocumentStore} {document : Document} {key : QualifiedName} {token : String}
  {status : Status}

/-- The error that a write answers with, if it does. -/
def refusal? (store : DocumentStore) : ClientWrite → Option StoreError
  | .update document =>
    match (store.update document).1 with
    | .error error => some error
    | .ok _ => none
  | .patchStatus key token status =>
    match (store.patchStatus key token status).1 with
    | .error error => some error
    | .ok _ => none
  | _ => none

/-- Nothing stands against a write: one that presents a token presents that of the stored
version, and an update names its namespace. -/
def Admits (store : DocumentStore) : ClientWrite → Prop
  | .update document => document.metadata.ns ≠ none ∧
      ∃ stored, store.get? document.key = some stored ∧
        stored.versionToken = document.versionToken
  | .patchStatus key token _ =>
      ∃ stored, store.get? key = some stored ∧ stored.versionToken = some token
  | _ => True

/-- The store after an update that is let through: under the key lies what was written with the
status that was stored, bearing the next token, or nothing if that has released the document. -/
theorem update_of_admitted {stored : Document} (named : document.metadata.ns ≠ none)
    (found : store.get? document.key = some stored)
    (current : stored.versionToken = document.versionToken) :
    store.update document =
      (.ok (withToken { document with status := stored.status } store.nextToken),
        if isReleased document then
          { store.issue.drop document.key with updates := store.updates + 1 }
        else
          { store.issue.put document.key
              (withToken { document with status := stored.status } store.nextToken) with
            updates := store.updates + 1 }) := by
  obtain ⟨ns, namespaced⟩ := Option.ne_none_iff_exists'.mp named
  unfold update
  rw [namespaced]
  dsimp only
  rw [found]
  dsimp only
  rw [if_neg (not_not_intro current), isReleased_withToken]
  by_cases released : isReleased document = true
  · rw [if_pos released, if_pos released]
    rfl
  · rw [if_neg released, if_neg released]
    rfl

/-- The store after a patch that is let through: the stored version with the new status, bearing the
next token; specification and metadata are those that were stored. -/
theorem patchStatus_of_admitted {stored : Document} (found : store.get? key = some stored)
    (current : stored.versionToken = some token) :
    store.patchStatus key token status =
      (.ok (), { store.issue.put key
          (withToken { stored with status := some status } store.nextToken) with
        patches := store.patches + 1 }) := by
  unfold patchStatus
  simp only [found, current, ne_eq, not_true_eq_false, if_false]
  rfl

/-- The store after an update that is not let through: an error is reported, and no document has
changed. At most a token was taken. -/
theorem update_of_refused (refused : ¬ store.Admits (.update document)) :
    ∃ error, (store.update document).1 = .error error ∧
      ((store.update document).2 = store ∨ (store.update document).2 = store.issue) := by
  rcases store.update_cases document with same | ⟨stored, found, current, named, -⟩
  · exact same
  · exact absurd ⟨named, stored, found, current⟩ refused

/-- The store after a patch that is not let through: an error is reported and a token was taken, but
no document has changed. -/
theorem patchStatus_of_refused (refused : ¬ store.Admits (.patchStatus key token status)) :
    ∃ error, (store.patchStatus key token status).1 = .error error ∧
      (store.patchStatus key token status).2 = store.issue := by
  rcases store.patchStatus_cases key token status with same | ⟨stored, found, current, -⟩
  · exact same
  · exact absurd ⟨stored, found, current⟩ refused

/-- A write is refused exactly if something stands against it: an update without a namespace, a
document that is missing, or a token that is not the stored one. Writes that present no token are
never refused. -/
theorem refusal?_eq_none_iff {write : ClientWrite} :
    store.refusal? write = none ↔ store.Admits write := by
  cases write with
  | update document =>
    by_cases admitted : store.Admits (.update document)
    · obtain ⟨named, stored, found, current⟩ := admitted
      simp only [refusal?, update_of_admitted named found current, true_iff]
      exact ⟨named, stored, found, current⟩
    · obtain ⟨error, refused, -⟩ := update_of_refused admitted
      simp [refusal?, refused, admitted]
  | patchStatus key token status =>
    by_cases admitted : store.Admits (.patchStatus key token status)
    · obtain ⟨stored, found, current⟩ := admitted
      simp only [refusal?, patchStatus_of_admitted found current, true_iff]
      exact ⟨stored, found, current⟩
    · obtain ⟨error, refused, -⟩ := patchStatus_of_refused admitted
      simp [refusal?, refused, admitted]
  | insert document => exact ⟨fun _ => trivial, fun _ => rfl⟩
  | bump key => exact ⟨fun _ => trivial, fun _ => rfl⟩
  | markDeleted key => exact ⟨fun _ => trivial, fun _ => rfl⟩
  | remove key => exact ⟨fun _ => trivial, fun _ => rfl⟩

/-- A write that is refused leaves all documents and both counts as they are. It may have taken a
token. -/
theorem write_of_refused {now : Timestamp} {write : ClientWrite}
    (refused : ¬ store.Admits write) :
    (store.write now write).documents = store.documents ∧
      (store.write now write).patches = store.patches ∧
      (store.write now write).updates = store.updates := by
  cases write with
  | update document =>
    obtain ⟨-, -, same | same⟩ := update_of_refused refused
    · simp only [write, same, and_self]
    · simp only [write, same]
      exact ⟨rfl, rfl, rfl⟩
  | patchStatus key token status =>
    obtain ⟨-, -, same⟩ := patchStatus_of_refused refused
    simp only [write, same]
    exact ⟨rfl, rfl, rfl⟩
  | insert document => exact absurd trivial refused
  | bump key => exact absurd trivial refused
  | markDeleted key => exact absurd trivial refused
  | remove key => exact absurd trivial refused

/-- A write changes no document under another key, whether it is refused or let through. -/
theorem get?_write_of_ne (store : DocumentStore) (now : Timestamp) (write : ClientWrite)
    {other : QualifiedName} (different : write.key ≠ other) :
    (store.write now write).get? other = store.get? other := by
  cases write with
  | insert document => exact (get?_put _ _ _ _).trans (if_neg different)
  | bump key =>
    simp only [DocumentStore.write, bump]
    split
    · exact (get?_put _ _ _ _).trans (if_neg different)
    · rfl
  | markDeleted key =>
    simp only [DocumentStore.write, markDeleted]
    split
    · exact (get?_put _ _ _ _).trans (if_neg different)
    · rfl
  | remove key => exact (get?_drop _ _ _).trans (if_neg different)
  | update document =>
    rcases store.update_cases document with ⟨-, -, same | same⟩ |
      ⟨stored, -, -, -, -, -, versions⟩
    · simp only [DocumentStore.write, same]
    · simp only [DocumentStore.write, same, get?_issue]
    · exact (versions other).trans (if_neg different)
  | patchStatus key token status =>
    rcases store.patchStatus_cases key token status with ⟨-, -, same⟩ |
      ⟨stored, -, -, -, -, versions⟩
    · simp only [DocumentStore.write, same, get?_issue]
    · exact (versions other).trans (if_neg different)

/-- The counts after a write that is let through: patches of a status and updates are counted, each
by its own count, and other writes are not. -/
theorem counts_of_admitted {now : Timestamp} {write : ClientWrite} (admitted : store.Admits write) :
    (store.write now write).patches = store.patches + write.isPatch.toNat ∧
      (store.write now write).updates = store.updates + write.isUpdate.toNat := by
  cases write with
  | update document =>
    obtain ⟨named, stored, found, current⟩ := admitted
    simp only [write, update_of_admitted named found current]
    split <;> exact ⟨rfl, rfl⟩
  | patchStatus key token status =>
    obtain ⟨stored, found, current⟩ := admitted
    simp only [write, patchStatus_of_admitted found current]
    exact ⟨rfl, rfl⟩
  | insert document => exact ⟨rfl, rfl⟩
  | bump key =>
    simp only [write, bump]
    split <;> exact ⟨rfl, rfl⟩
  | markDeleted key =>
    simp only [write, markDeleted]
    split <;> exact ⟨rfl, rfl⟩
  | remove key => exact ⟨rfl, rfl⟩

/-- Stored documents change only as the write says. It changes no document under another key. If
it is refused, for presenting a token that the stored version does not bear or naming no document
or no namespace, it changes nothing. If not, a patch changes status and token of the stored
version, and an update replaces metadata and spec, under the next token, and keeps the status, or
takes the document away, exactly if what was written is marked deleted and bears no finalizer. The
patches and the updates that are let through are counted, and nothing else is. -/
theorem changes_as_written (store : DocumentStore) (now : Timestamp) (write : ClientWrite) :
    (∀ other, write.key ≠ other → (store.write now write).get? other = store.get? other) ∧
    (store.refusal? write = none ↔ store.Admits write) ∧
    (store.refusal? write ≠ none → (store.write now write).documents = store.documents) ∧
    (∀ key token status, write = .patchStatus key token status → store.refusal? write = none →
      ∃ stored, store.get? key = some stored ∧
        (store.write now write).get? key =
          some { stored with
            status := some status
            metadata := { stored.metadata with resourceVersion := some store.nextToken } }) ∧
    (∀ document, write = .update document → store.refusal? write = none →
      ∃ stored, store.get? document.key = some stored ∧
        (store.write now write).get? document.key =
          if document.isDeleting = true ∧ document.finalizers = [] then none
          else some {
            metadata := { document.metadata with resourceVersion := some store.nextToken }
            spec := document.spec
            status := stored.status }) ∧
    (store.write now write).patches =
      store.patches + (if write.isPatch = true ∧ store.refusal? write = none then 1 else 0) ∧
    (store.write now write).updates =
      store.updates + (if write.isUpdate = true ∧ store.refusal? write = none then 1 else 0) := by
  refine ⟨fun other different => get?_write_of_ne store now write different,
    refusal?_eq_none_iff, ?refused, ?patched, ?updated, ?counted⟩
  case refused =>
    intro refused
    exact (write_of_refused fun admitted => refused (refusal?_eq_none_iff.mpr admitted)).1
  case patched =>
    rintro key token status rfl accepted
    obtain ⟨stored, found, current⟩ := refusal?_eq_none_iff.mp accepted
    refine ⟨stored, found, ?_⟩
    simp only [write, patchStatus_of_admitted found current]
    exact (get?_put store.issue key _ key).trans (if_pos rfl)
  case updated =>
    rintro document rfl accepted
    obtain ⟨named, stored, found, current⟩ := refusal?_eq_none_iff.mp accepted
    refine ⟨stored, found, ?_⟩
    have released : isReleased document = true ↔
        document.isDeleting = true ∧ document.finalizers = [] := by
      simp [isReleased]
    simp only [write, update_of_admitted named found current, ← released]
    split
    · exact (get?_drop store.issue document.key _).trans (if_pos rfl)
    · exact (get?_put store.issue document.key _ _).trans (if_pos rfl)
  case counted =>
    by_cases admitted : store.Admits write
    · obtain ⟨patches, updates⟩ := @counts_of_admitted store now write admitted
      rw [patches, updates, refusal?_eq_none_iff.mpr admitted]
      cases write.isPatch <;> cases write.isUpdate <;> simp
    · have refused : store.refusal? write ≠ none := fun accepted =>
        admitted (refusal?_eq_none_iff.mp accepted)
      obtain ⟨-, patches, updates⟩ := @write_of_refused store now write admitted
      simp [patches, updates, refused]

/-- A document that was marked deleted and that nobody holds back, as it was read under a
token. -/
def leavingDocument (token : String) : Document :=
  { metadata :=
      { Metadata.empty with
        generateName := some "ds-", ns := some "team-a", resourceVersion := some token
        deletionTimestamp := some "2024-05-01T00:00:00Z" }
    spec := { dataset := { apiGroup := none, kind := "Dataset", name := "ds", ns := none }
              version := "v1", inheritedFrom := none, fileGroups := [], released := false }
    status := none }

/-- A store that holds a document under the token 1, with a finalizer and a status. -/
def leavingStore : DocumentStore :=
  (empty.insert { leavingDocument "" with
    metadata := { (leavingDocument "").metadata with finalizers := some ["example.com/hold"] }
    status := some .initial }).2

/-- The update that takes the last finalizer away takes the document away; under an older token it
changes nothing. -/
theorem changes_as_written_release :
    leavingStore.refusal? (.update (leavingDocument "1")) = none ∧
      (leavingStore.write "" (.update (leavingDocument "1"))).get? ⟨"team-a", "ds-"⟩ = none ∧
      (leavingStore.write "" (.update (leavingDocument "1"))).updates = 1 ∧
      leavingStore.refusal? (.update (leavingDocument "0")) ≠ none ∧
      (leavingStore.write "" (.update (leavingDocument "0"))).documents = leavingStore.documents ∧
      (leavingStore.write "" (.update (leavingDocument "0"))).updates = 0 := by
  have accepted : leavingStore.refusal? (.update (leavingDocument "1")) = none := by decide
  have refused : leavingStore.refusal? (.update (leavingDocument "0")) ≠ none := by decide
  obtain ⟨-, -, -, -, updated, -, counted⟩ :=
    changes_as_written leavingStore "" (.update (leavingDocument "1"))
  obtain ⟨-, -, kept, -, -, -, uncounted⟩ :=
    changes_as_written leavingStore "" (.update (leavingDocument "0"))
  obtain ⟨stored, -, gone⟩ := updated _ rfl accepted
  refine ⟨accepted, gone.trans (if_pos (by decide)), ?_, refused, kept refused, ?_⟩
  · rw [counted, if_pos ⟨rfl, accepted⟩]
    rfl
  · rw [uncounted, if_neg fun both => refused both.2]
    rfl

end DocumentStore

end DatasetSync
