import DatasetSync.Proofs.FileTree.Report

/-!
# What a tree is reported as

The sum of a tree says one of three things: everything is done, a certain file has failed, or
files are still on their way. Which of them it says can be read off the phases of the files, and
the other way round. When the sum is put into a status, the first report on readiness says what
the sum says, and the reports on all other aspects stay as they are, each in its place.

As a report that says the same is left alone, the time of the first report need not be that of
the sum. Further reports on readiness behind the first one are not touched, and nothing is
claimed about them.
-/

namespace DatasetSync

/-- The report that a run makes on a file that has failed. -/
def FileRecord.failureMessage (file : FileRecord) : String :=
  file.path ++ " sync failed, " ++ file.errorMessage

/-- A report tells how far the files of a tree have come: which of the three things it says can
be read off the files, and the other way round. -/
structure Condition.Tells (condition : Condition) (tree : FileTree) : Prop where
  success : condition.status = .true ∧ condition.reason = successReason ↔
    ∀ file ∈ tree.allFiles, file.phase = .succeeded ∨ file.phase = .skipped
  /-- Of several failed files the first one in stored order is named. -/
  failure : (condition.status = .false ∧ condition.reason = failedReason ∧
      ∃ file, tree.allFiles.find? (·.phase = .failed) = some file ∧
        condition.message = file.failureMessage) ↔
    ∃ file ∈ tree.allFiles, file.phase = .failed
  syncing : condition.status = .false ∧ condition.reason = syncingReason ↔
    ¬ (∀ file ∈ tree.allFiles, file.phase = .succeeded ∨ file.phase = .skipped) ∧
      ¬ ∃ file ∈ tree.allFiles, file.phase = .failed

namespace FileTree

variable {tree : FileTree}

/-- A file is settled once it has been synced or skipped. -/
theorem isSettled_iff {phase : Phase} :
    phase.isSettled = true ↔ phase = .succeeded ∨ phase = .skipped := by
  cases phase <;> simp [Phase.isSettled]

/-- The sum of a tree tells how far its files have come: it is true if all files are settled, and
otherwise it says whether some file has failed or all others are still on their way. -/
theorem tells_summary (now : Timestamp) : (tree.summary now).Tells tree := by
  have reasons : Condition.successReason ≠ Condition.failedReason ∧
      Condition.successReason ≠ Condition.syncingReason ∧
      Condition.failedReason ≠ Condition.syncingReason := by decide
  unfold summary summaryOf
  split
  · rename_i file found
    have failed : file.phase = .failed := by simpa using List.find?_some found
    have listed : file ∈ tree.allFiles := List.mem_of_find?_eq_some found
    have unsettled : ¬ ∀ file ∈ tree.allFiles, file.phase = .succeeded ∨ file.phase = .skipped :=
      fun settled => by simpa [failed] using settled file listed
    exact {
      success := by simp [Condition.ready, unsettled]
      failure := by
        simp only [Condition.ready, found, true_and]
        exact ⟨fun _ => ⟨file, listed, failed⟩, fun _ => ⟨file, rfl, rfl⟩⟩
      syncing := by
        simp only [Condition.ready, true_and, reasons.2.2, false_iff, not_and, not_not]
        exact fun _ => ⟨file, listed, failed⟩ }
  · rename_i none
    have sound : ¬ ∃ file ∈ tree.allFiles, file.phase = .failed := by
      simpa using none
    have settled : (tree.allFiles.all (·.phase.isSettled) = true) ↔
        ∀ file ∈ tree.allFiles, file.phase = .succeeded ∨ file.phase = .skipped := by
      simp [isSettled_iff]
    split
    · rename_i all
      have done := settled.mp all
      exact {
        success := iff_of_true ⟨rfl, rfl⟩ done
        failure := by simp [Condition.ready, sound]
        syncing := iff_of_false (by simp [Condition.ready]) fun undone => undone.1 done }
    · rename_i some
      have unsettled := settled.not.mp some
      exact {
        success := by simp [Condition.ready, unsettled]
        failure := by simp [Condition.ready, sound, none]
        syncing := by simp [Condition.ready, unsettled, sound] }

end FileTree

/-- A report that says the same as another one, at another time, tells the same about a tree. -/
theorem Condition.Tells.of_equivalent {first second : Condition} {tree : FileTree}
    (tells : second.Tells tree) (same : first.equivalent second = true) : first.Tells tree := by
  obtain ⟨-, status, reason, message⟩ := equivalent_iff.mp same
  constructor
  · rw [status, reason]
    exact tells.success
  · rw [status, reason, message]
    exact tells.failure
  · rw [status, reason]
    exact tells.syncing

/-- The status that a run makes of a stored one holds the tree of the run, and its first report
on readiness tells how far the files of that tree have come. -/
theorem SyncPlan.tells_commitStatus (stored : Option Status) (tree : FileTree) (now : Timestamp) :
    ∃ condition, (commitStatus stored tree now).ready? = some condition ∧
      condition.Tells (commitStatus stored tree now).files := by
  obtain ⟨condition, first, same⟩ :=
    Condition.find?_set (tree.summary now) (stored.getD .initial).conditions
  rw [FileTree.type_summary] at first
  exact ⟨condition, first, (FileTree.tells_summary now).of_equivalent same⟩

/-- The status that a run makes of a stored one keeps all reports on other aspects in their
places, and brings none in. -/
theorem SyncPlan.conditions_commitStatus (stored : Option Status) (tree : FileTree)
    (now : Timestamp) {other : Condition} (foreign : other.type ≠ Condition.readyType) (i : Nat) :
    (commitStatus stored tree now).conditions[i]? = some other ↔
      (stored.getD .initial).conditions[i]? = some other :=
  Condition.getElem?_set_of_type_ne (by rwa [FileTree.type_summary]) i

end DatasetSync
