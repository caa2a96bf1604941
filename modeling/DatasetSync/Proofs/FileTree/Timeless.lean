import DatasetSync.Proofs.FileTree.Record
import DatasetSync.Proofs.FileTree.Report

/-!
# Statuses up to their times

Two runs that do the same at different times write statuses that differ in their times alone. A
status without its times has forgotten when files were synced and when conditions changed, and
nothing else. What a run writes, without the times, is told by its tree and by the stored status,
both without their times; the clock has no part in it.
-/

namespace DatasetSync

/-- A file, whenever it was synced. -/
def FileRecord.timeless (file : FileRecord) : FileRecord := { file with lastUpdateTime := none }

/-- A tree, whenever its files were synced. -/
def FileTree.timeless (tree : FileTree) : FileTree :=
  tree.map fun group => { group with files := group.files.map FileRecord.timeless }

/-- A condition, whenever it changed. -/
def Condition.timeless (condition : Condition) : Condition :=
  { condition with lastTransitionTime := none }

/-- A status without its times. -/
def Status.timeless (status : Status) : Status :=
  ⟨status.conditions.map Condition.timeless, status.files.timeless⟩

/-- How a copy of a file ended does not depend on when it ended, apart from the time that is
noted. -/
theorem FileRecord.timeless_settle (file : FileRecord) (now now' : Timestamp)
    (result : Except StorageError Unit) :
    (file.settle now result).timeless = (file.settle now' result).timeless := by
  cases result <;> rfl

namespace Condition

/-- Taking its time away leaves the type of a condition. -/
@[simp] theorem type_timeless (condition : Condition) :
    condition.timeless.type = condition.type := rfl

/-- Whether two conditions say the same is told without their times. -/
@[simp] theorem equivalent_timeless (first second : Condition) :
    first.timeless.equivalent second.timeless = first.equivalent second := rfl

/-- Conditions that say the same differ at most in their times. -/
theorem timeless_of_equivalent {first second : Condition} (same : first.equivalent second = true) :
    first.timeless = second.timeless := by
  obtain ⟨type, status, reason, message⟩ := equivalent_iff.mp same
  rw [timeless, timeless, type, status, reason, message]

/-- A condition is set in the same way whatever the times are: the entry that is replaced is found
by its type, and whether it says the same is told without times. -/
theorem timeless_set (condition : Condition) (conditions : List Condition) :
    (condition.set conditions).map timeless = condition.timeless.set (conditions.map timeless) := by
  induction conditions with
  | nil => rfl
  | cons head tail ih =>
    by_cases own : head.type = condition.type
    · by_cases same : head.equivalent condition = true <;> simp [set, own, same]
    · simp [set, own, ih]

end Condition

namespace FileTree

variable {tree tree' : FileTree}

/-- The files of a tree without times are the files of the tree, each without its times. -/
theorem allFiles_timeless (tree : FileTree) :
    tree.timeless.allFiles = tree.allFiles.map FileRecord.timeless := by
  simp [allFiles, timeless, List.flatMap_map, List.map_flatMap]

/-- The sum of a tree does not depend on the times in it, only on the phases and the errors of the
files. -/
theorem summary_timeless (tree : FileTree) (now : Timestamp) :
    tree.timeless.summary now = tree.summary now := by
  unfold summary summaryOf
  rw [allFiles_timeless, List.find?_map, List.all_map]
  have phases : (fun file : FileRecord => decide (file.phase = .failed)) ∘ FileRecord.timeless =
      fun file => decide (file.phase = .failed) := rfl
  have settled : (fun file : FileRecord => file.phase.isSettled) ∘ FileRecord.timeless =
      fun file => file.phase.isSettled := rfl
  rw [phases, settled]
  cases tree.allFiles.find? fun file => decide (file.phase = .failed) <;> rfl

/-- Trees with the same sources and paths are the same up to their times if the files in the same
positions are. -/
theorem timeless_ext (outline : tree.outline = tree'.outline)
    (files : ∀ i j source source' file file', tree.Places i j source file →
      tree'.Places i j source' file' → file.timeless = file'.timeless) :
    tree.timeless = tree'.timeless := by
  refine List.ext_getElem? fun i => ?_
  unfold timeless
  rw [List.getElem?_map, List.getElem?_map]
  cases present : tree[i]? with
  | none =>
    cases present' : tree'[i]? with
    | none => rfl
    | some group' =>
      obtain ⟨group, present'', -⟩ := group_of_outline outline.symm present'
      rw [present] at present''
      cases present''
  | some group =>
    obtain ⟨group', present', source, paths⟩ := group_of_outline outline present
    have same : group.files.map FileRecord.timeless = group'.files.map FileRecord.timeless := by
      refine List.ext_getElem? fun j => ?_
      rw [List.getElem?_map, List.getElem?_map]
      cases listed : group.files[j]? with
      | none =>
        cases listed' : group'.files[j]? with
        | none => rfl
        | some file' =>
          obtain ⟨file, listed''⟩ := file_of_paths paths.symm listed'
          rw [listed] at listed''
          cases listed''
      | some file =>
        obtain ⟨file', listed'⟩ := file_of_paths paths listed
        rw [listed']
        exact congrArg some (files i j _ _ file file' ⟨group, present, rfl, listed⟩
          ⟨group', present', rfl, listed'⟩)
    rw [present', Option.map_some, Option.map_some, source, same]

end FileTree

/-- What a run writes is told by its tree and the stored status, all without their times. -/
theorem SyncPlan.timeless_commitStatus {stored stored' : Option Status} {tree tree' : FileTree}
    (now now' : Timestamp) (same : stored.map Status.timeless = stored'.map Status.timeless)
    (trees : tree.timeless = tree'.timeless) :
    (commitStatus stored tree now).timeless = (commitStatus stored' tree' now').timeless := by
  have conditions : (stored.getD .initial).conditions.map Condition.timeless =
      (stored'.getD .initial).conditions.map Condition.timeless := by
    cases stored <;> cases stored' <;> simp_all [Status.timeless]
  have sums : (tree.summary now).timeless = (tree'.summary now').timeless := by
    rw [← FileTree.summary_timeless tree, trees, FileTree.summary_timeless]
    exact Condition.timeless_of_equivalent (FileTree.equivalent_summary now now' tree')
  unfold commitStatus Status.timeless Status.setCondition
  simp only [Condition.timeless_set, conditions, sums, trees]

end DatasetSync
