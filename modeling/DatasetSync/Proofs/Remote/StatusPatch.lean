import DatasetSync.Proofs.Resource.Written
import DatasetSync.Proofs.Store.Versions
import DatasetSync.Remote.ResourceService

/-!
# What a status patch leaves behind

The service of a cluster gets a status as a merge patch and applies it to the document that
it holds. A list without elements is left out of the patch, and what a patch leaves out stays
as it was. So a patch takes a list of conditions or of files to any list with elements, but
it cannot empty one.

The stored document is any JSON object that reads as a document, with whatever further
members its parts have. Only one thing is assumed about its form: a status is written by
name, not by position, which is the one form that the schema of a cluster admits. The token
that the service gives the new version afterwards is not part of the patch.
-/

namespace DatasetSync

open Json

/-- A status after it was patched over an older one: a list that is empty in the new status
    stays as it was. -/
def Status.patchedOver (status older : Status) : Status :=
  { conditions := if status.conditions = [] then older.conditions else status.conditions
    files := if status.files = [] then older.files else status.files }

/-- The patched status is the new one exactly if the older one has no list with elements
    where the new one has none. -/
theorem Status.patchedOver_eq_iff (status older : Status) :
    status.patchedOver older = status ↔
      (status.conditions = [] → older.conditions = []) ∧
        (status.files = [] → older.files = []) := by
  obtain ⟨conditions, files⟩ := status
  by_cases unreported : conditions = [] <;> by_cases unlisted : files = [] <;>
    simp [Status.patchedOver, unreported, unlisted]

/-- A patch over a status, read back: a list of the patch that is not empty replaces the list of
that name, and an empty one was left out, so that the old list stays. -/
theorem Status.ofJson?_mergePatch {fields : Members} {older : Status}
    (reads : ofJson? (.object fields) = some older) (status : Status) :
    ofJson? (mergePatch (.object fields) status.toJson) = some (status.patchedOver older) := by
  obtain ⟨conditionsBefore, filesBefore⟩ := ofJson?_eq_some_iff.mp reads
  have conditionsBack : list? Condition.ofJson? (.array (status.conditions.map Condition.toJson)) =
      some status.conditions := list?_array_map Condition.ofJson?_toJson
  have filesBack : list? SourceFiles.ofJson? (.array (status.files.map SourceFiles.toJson)) =
      some status.files := list?_array_map SourceFiles.ofJson?_toJson
  have written : mergePatch (.object fields) status.toJson = .object
      (mergeMembers fields (listMember "conditions" (status.conditions.map Condition.toJson)
        ++ (listMember "files" (status.files.map SourceFiles.toJson) ++ []))) := by
    simp [toJson, members?]
  rw [written, mergeMembers_listMember, mergeMembers_listMember, mergeMembers_nil,
    ofJson?_eq_some_iff]
  constructor
  · by_cases unreported : status.conditions = []
    · simp [Members.defaulted_patchList, patchedOver, unreported, conditionsBefore]
    · simp [Members.defaulted_patchList, patchedOver, unreported, conditionsBack]
  · by_cases unlisted : status.files = []
    · simp [Members.defaulted_patchList, patchedOver, unlisted, filesBefore]
    · simpa [Members.defaulted_patchList, patchedOver, unlisted, FileTree.ofJson?] using filesBack

/-- Metadata that carry a token were read off members with that token, which is a text there. -/
theorem Metadata.token_member {fields : Members} {metadata : Metadata} {token : String}
    (reads : ofJson? (.object fields) = some metadata)
    (current : metadata.resourceVersion = some token) :
    fields.value? "resourceVersion" = some (.string token) := by
  have given : fields.optional "resourceVersion" string? = some (some token) := by
    simp only [ofJson?, members?, Option.bind_eq_bind, Option.bind_some,
      Option.bind_eq_some_iff] at reads
    obtain ⟨_, -, _, -, _, -, _, found, _, -, _, -, _, -, _, -, _, -, _, -, read⟩ := reads
    obtain rfl := Option.some.inj read
    rw [found, ← current]
  cases found : fields.value? "resourceVersion" with
  | none => simp [Members.optional, found] at given
  | some json => cases json <;> simp_all [Members.optional, string?]

/-- The same for a status that may be missing: then the patch makes one. A patch over `null` is one
over an object without members, which reads as the initial status. -/
theorem Status.ofJson?_mergePatch_optional {members : Members} {older : Option Status}
    (reads : members.optional "status" ofJson? = some older)
    (named : ∀ elements, members.value? "status" ≠ some (.array elements)) (status : Status) :
    ofJson? (mergePatch ((members.value? "status").getD .null) status.toJson) =
      some (status.patchedOver (older.getD .initial)) := by
  have nothing : ofJson? (.object []) = some Status.initial := rfl
  have made : ofJson? (mergePatch .null status.toJson) = some (status.patchedOver .initial) :=
    ofJson?_mergePatch nothing status
  cases found : members.value? "status" with
  | none =>
    obtain rfl : none = older := by simpa [Members.optional, found] using reads
    exact made
  | some former =>
    cases former with
    | null =>
      obtain rfl : none = older := by simpa [Members.optional, found] using reads
      exact made
    | object fields =>
      obtain ⟨stored, storedReads, rfl⟩ : ∃ stored, ofJson? (.object fields) = some stored ∧
          some stored = older := by
        simpa [Members.optional, found] using reads
      exact ofJson?_mergePatch storedReads status
    | array elements => exact absurd found (named elements)
    | _ =>
      rw [Members.optional, found] at reads
      cases reads

/-- What the service holds after a patch, read back: the status is the new one over the stored one,
and metadata and spec are as before. The patch names the token as well; this is the stored one, so
that the metadata are set to what they are. -/
theorem Document.ofJson?_mergePatch {members : Members} {document : Document} {token : String}
    (reads : ofJson? (.object members) = some document)
    (current : document.versionToken = some token)
    (named : ∀ elements, members.value? "status" ≠ some (.array elements)) (status : Status) :
    ofJson? (mergePatch (.object members) (Remote.ResourceService.statusPatch token status)) =
      some { document with status := some (status.patchedOver document.statusOrInitial) } := by
  obtain ⟨metadata, spec, older⟩ := document
  obtain ⟨metadataReads, specReads, statusReads⟩ :
      members.required "metadata" Metadata.ofJson? = some metadata ∧
        members.required "spec" Spec.ofJson? = some spec ∧
        members.optional "status" Status.ofJson? = some older := by
    simpa [ofJson?, fullRecord?, Option.bind_eq_some_iff] using reads
  obtain ⟨json, jsonFound, jsonReads⟩ := Option.bind_eq_some_iff.mp metadataReads
  obtain ⟨fields, fieldsFound, -⟩ := Option.bind_eq_some_iff.mp jsonReads
  obtain rfl : json = .object fields := by
    cases json with
    | object fields => exact congrArg _ (Option.some.inj fieldsFound)
    | _ => cases fieldsFound
  have tokenSet := Members.set_of_value? (Metadata.token_member jsonReads current)
  have metadataSet := Members.set_of_value? jsonFound
  have statusBack := Status.ofJson?_mergePatch_optional statusReads named status
  have notNull : status.toJson ≠ .null := by simp [Status.toJson]
  have merged : mergePatch (.object members) (Remote.ResourceService.statusPatch token status) =
      .object (members.set "status"
        (mergePatch ((members.value? "status").getD .null) status.toJson)) := by
    simp [Remote.ResourceService.statusPatch, mergeMembers_cons, members?, jsonFound, notNull,
      tokenSet, metadataSet]
  obtain ⟨after, afterReads⟩ : ∃ after, mergePatch ((members.value? "status").getD .null)
      status.toJson = .object after := by
    simp [Status.toJson]
  rw [merged, afterReads]
  rw [afterReads] at statusBack
  simp only [Members.required] at specReads
  simp [ofJson?, fullRecord?, Members.required, Members.optional, jsonFound, jsonReads, specReads,
    statusBack, statusOrInitial]

namespace Remote.ResourceService

/-- What a patch of the status leaves behind a service that applies it as a merge patch,
    next to what the store in memory leaves behind. The status is the same exactly if no
    list with elements is to be emptied. In every case spec and metadata read as before. -/
theorem patchStatus_agrees_iff {members : Members} {document : Document} {token : String}
    (reads : Document.ofJson? (.object members) = some document)
    (current : document.versionToken = some token)
    (named : ∀ elements, members.value? "status" ≠ some (.array elements))
    {store : DocumentStore} {key : QualifiedName} (held : store.get? key = some document)
    (status : Status) (reply : ResourceReply) :
    (∀ request ∈ (patchStatus key token status reply).requests,
      request.body = some (.mergePatch, statusPatch token status)) ∧
    ∃ patched stored,
      Document.ofJson? (mergePatch (.object members) (statusPatch token status)) = some patched ∧
      (store.patchStatus key token status).2.get? key = some stored ∧
      patched.metadata = document.metadata ∧ patched.spec = document.spec ∧
      stored.status = some status ∧
      (patched.status = stored.status ↔
        (status.conditions = [] → document.statusOrInitial.conditions = []) ∧
          (status.files = [] → document.statusOrInitial.files = [])) := by
  have storedFound := DocumentStore.get?_patchStatus_of_current held current status key
  rw [if_pos rfl] at storedFound
  have patchedReads := Document.ofJson?_mergePatch reads current named status
  constructor
  · intro request sent
    unfold patchStatus exchange at sent
    split at sent
    · cases sent
    · rw [List.mem_singleton] at sent
      rw [sent]
  · refine ⟨_, _, patchedReads, storedFound, rfl, rfl, rfl, ?_⟩
    rw [← Status.patchedOver_eq_iff]
    exact ⟨fun same => Option.some.inj same, fun same => congrArg some same⟩

/-- A stored version with one file in its status. -/
def filledDocument : Document :=
  { metadata := { Metadata.empty with
      name := some "ds-v1", ns := some "team-a", resourceVersion := some "1" }
    spec := { dataset := ⟨none, "Dataset", "ds", none⟩, version := "v1", inheritedFrom := none
              fileGroups := [], released := false }
    status := some ⟨[], [⟨⟨none, "Datasource", "x", some "team-a"⟩, [.blank "a.txt" .succeeded]⟩]⟩ }

/-- The same as the service holds it. -/
def filledMembers : Members :=
  [("metadata", filledDocument.metadata.toJson), ("spec", filledDocument.spec.toJson),
   ("status", filledDocument.statusOrInitial.toJson)]

/-- The same in memory. -/
def filledStore : DocumentStore := (DocumentStore.empty.insert filledDocument).2

/-- The status of that version once a second file has come. -/
def grownStatus : Status :=
  ⟨[], [⟨⟨none, "Datasource", "x", some "team-a"⟩,
    [.blank "a.txt" .succeeded, .blank "b.txt" .processing]⟩]⟩

/-- A list that grows is replaced, so that the service and the store in memory agree on it. -/
theorem patchStatus_agrees_grown :
    ∃ patched stored,
      Document.ofJson? (mergePatch (.object filledMembers) (statusPatch "1" grownStatus)) =
        some patched ∧
      (filledStore.patchStatus filledDocument.key "1" grownStatus).2.get? filledDocument.key =
        some stored ∧
      patched.metadata = filledDocument.metadata ∧ patched.spec = filledDocument.spec ∧
      stored.status = some grownStatus ∧ patched.status = stored.status := by
  have reads : Document.ofJson? (.object filledMembers) = some filledDocument := by
    decide +kernel
  have named : ∀ elements, filledMembers.value? "status" ≠ some (.array elements) := by
    intro elements same
    cases same
  have held : filledStore.get? filledDocument.key = some filledDocument := by decide +kernel
  obtain ⟨-, patched, stored, patchedReads, storedFound, metadata, spec, status, agrees⟩ :=
    patchStatus_agrees_iff reads rfl named held grownStatus (.body .null)
  refine ⟨patched, stored, patchedReads, storedFound, metadata, spec, status, agrees.mpr ?_⟩
  decide

/-- A list that is to be emptied is not: the service keeps the file that is gone, and the
    store in memory does not. -/
theorem emptied_files_stay :
    (Document.ofJson?
      (mergePatch (.object filledMembers) (statusPatch "1" .initial))).bind Document.status =
        filledDocument.status ∧
    ((filledStore.patchStatus filledDocument.key "1" .initial).2.get? filledDocument.key).bind
      Document.status = some .initial ∧
    filledDocument.status ≠ some .initial := by
  decide +kernel

end Remote.ResourceService

end DatasetSync
