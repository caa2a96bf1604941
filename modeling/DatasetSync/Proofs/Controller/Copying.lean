import DatasetSync.Proofs.Controller.Effect
import DatasetSync.Proofs.FileTree.Report
import DatasetSync.Proofs.Store.Versions
import DatasetSync.Proofs.Sync.CopyRun

/-!
# A run from its start to its end

While nobody else acts, a run that ends with its status stored leaves the version that it has
found with the status that it makes of it. So a copy that ends like this has settled every file that
was due, by the answer to its own copy, and every object that it has copied lies at its place.
-/

namespace DatasetSync

namespace SyncPlan

open Pool

variable {plan : SyncPlan} {tree : FileTree} {produced : Except SyncError Unit}
  {outcome : Except SyncError RunOutcome} {before after : Backends}

/-- A run ends with its status stored: it has written it, or has found that it is there. -/
def IsStored (outcome : Except SyncError RunOutcome) : Prop :=
  outcome = .ok .unchanged ∨ ∃ ready, outcome = .ok (.committed ready)

/-- A run that ends with its status stored has made all its jobs, and leaves a version with the
status that it makes of the version it has found. -/
theorem Ends.stored {documents : DocumentStore}
    (ends : plan.Ends tree before.documents produced outcome documents)
    (stored : IsStored outcome) :
    produced = .ok () ∧ ∃ latest token version now,
      before.documents.get? plan.document.key = some latest ∧ plan.Accepts latest token ∧
      documents.get? plan.document.key = some version ∧
      version.status = some (commitStatus latest.status tree now) := by
  cases ends with
  | unchanged found accepts same => exact ⟨rfl, _, _, _, _, found, accepts, found, same⟩
  | @committed latest token now found accepts differs =>
    refine ⟨rfl, latest, token, DocumentStore.withToken { latest with
      status := some (commitStatus latest.status tree now) } before.documents.nextToken, now, found,
      accepts, ?_, rfl⟩
    exact (DocumentStore.get?_patchStatus_of_current found accepts.current _ _).trans (if_pos rfl)
  | released found deleting =>
    exfalso
    unfold releaseEnd at stored
    rcases stored with same | ⟨ready, same⟩ <;> split at same <;> cases same
  | failed | gone | removed | tokenless | superseded =>
    rcases stored with same | ⟨ready, same⟩ <;> cases same

/-- What a finished copy of a well-formed tree has done to one file that was due: its own copy was
answered, and if it was answered well, the object lies at its place. -/
theorem Runs.settles {document : Document} {sizing : Sizing} (formed : document.files.WellFormed)
    (runs : (copying document sizing).Runs before outcome after) (stored : IsStored outcome) :
    ∃ tree latest version now, before.documents.get? document.key = some latest ∧
      after.documents.get? document.key = some version ∧
      version.status = some (commitStatus latest.status tree now) ∧
      tree.outline = document.files.outline ∧
      ∀ i j source file, document.files.Places i j source file →
        (¬ file.Due → tree.Places i j source file) ∧
        (file.Due → ∃ now result, tree.Places i j source (file.settle now result) ∧
          (result = .ok () →
            after.objects.Holds ((copying document sizing).destination file.path))) := by
  obtain ⟨history, pool, tree, middle, produced, working, ended, performs⟩ := runs.cases
  obtain ⟨ends, objects⟩ := ends_of_performs performs
  obtain ⟨rfl, latest, token, version, now, found, -, found', status⟩ := ends.stored stored
  have outline : tree.outline = document.files.outline := working.tree_eq ▸ outline_recordAll _ _
  rw [working.documents] at found
  refine ⟨tree, latest, version, now, found, found', status, outline, fun i j source file places =>
    ⟨working.places_idle formed ended places, fun due => ?_⟩⟩
  obtain ⟨attempt, now, settles, held⟩ := working.settles_due formed ended places due
  refine ⟨now, attempt.result, settles.recorded, fun ok => ?_⟩
  rw [objects]
  refine held (fun before after change place present => ?_) ok
  obtain ⟨now, rfl⟩ := change
  exact present

/-- If the version is ready after a finished copy of a well-formed tree, each file of the tree was
settled before, or its object has been copied to its place. -/
theorem Runs.settled_or_held {document version : Document} {sizing : Sizing}
    (formed : document.files.WellFormed)
    (runs : (copying document sizing).Runs before outcome after) (stored : IsStored outcome)
    (found : after.documents.get? document.key = some version)
    (ready : version.statusOrInitial.IsReady) {file : FileRecord}
    (listed : file ∈ document.files.allFiles) :
    file.phase.isSettled = true ∨
      after.objects.Holds ((copying document sizing).destination file.path) := by
  obtain ⟨tree, latest, version', now, -, found', status, -, files⟩ := runs.settles formed stored
  obtain rfl := Option.some.inj (found.symm.trans found')
  rw [Document.statusOrInitial, status] at ready
  have settled := truthful_commitStatus latest.status tree now ready
  have listedIn : ∀ {i j source file}, tree.Places i j source file → file ∈ tree.allFiles := by
    rintro i j source file ⟨group, present, -, inGroup⟩
    exact List.mem_flatMap.mpr
      ⟨group, List.mem_of_getElem? present, List.mem_of_getElem? inGroup⟩
  obtain ⟨group, member, inGroup⟩ := List.mem_flatMap.mp listed
  obtain ⟨i, j, places⟩ := FileTree.places_of_mem member inGroup
  by_cases due : file.Due
  · obtain ⟨now, result, recorded, held⟩ := (files _ _ _ _ places).2 due
    have done := settled _ (listedIn recorded)
    cases result with
    | ok => exact .inr (held rfl)
    | error error => cases done
  · exact .inl (settled _ (listedIn ((files _ _ _ _ places).1 due)))

end SyncPlan

end DatasetSync
