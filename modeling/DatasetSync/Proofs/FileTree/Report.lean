import DatasetSync.Proofs.FileTree.Diff
import DatasetSync.Proofs.Resource.Condition
import DatasetSync.Sync.Run

/-!
# What a status reports on readiness

Two functions write the report on readiness. A run sums up its own tree, so what it reports
is true of the tree that it writes. A comparison only takes a report back that says that the
version is not ready; a version that was ready is still called ready while new files are
entered. So after a comparison the report may be ahead of the tree, and the only files that
it is ahead of are those that have just been entered.

Nothing is claimed about the times of reports, nor about further reports of the same type
behind the first one.
-/

namespace DatasetSync

namespace Status

/-- The first report on readiness says that the version is ready. -/
def IsReady (status : Status) : Prop := status.ready?.any Condition.holds = true

instance : DecidablePred IsReady := fun status =>
  inferInstanceAs (Decidable (status.ready?.any Condition.holds = true))

/-- If the status says that the version is ready, every file has been synced or skipped. -/
def Truthful (status : Status) : Prop :=
  status.IsReady → ∀ file ∈ status.files.allFiles, file.phase.isSettled = true

/-- If the status says that the version is ready, every file has been synced or skipped, or
has been entered and nothing has been done about it yet. -/
def TruthfulButNew (status : Status) : Prop :=
  status.IsReady → ∀ file ∈ status.files.allFiles,
    file.phase.isSettled = true ∨ file = .blank file.path .processing

/-- What is true is true but for new files. -/
theorem Truthful.butNew {status : Status} (truthful : status.Truthful) : status.TruthfulButNew :=
  fun ready file listed => .inl (truthful ready file listed)

/-- A status in which a report on readiness was set is ready if the report holds. -/
theorem isReady_setCondition (status : Status) {condition : Condition}
    (own : condition.type = Condition.readyType) :
    (status.setCondition condition).IsReady ↔ condition.holds = true := by
  obtain ⟨found, first, same⟩ := Condition.find?_set condition status.conditions
  rw [own] at first
  simp [IsReady, ready?, setCondition, Condition.findReady?, first,
    Condition.holds_of_equivalent same]

end Status

namespace FileTree

/-- The sum of a tree is about readiness, whichever of the three things it says. -/
@[simp] theorem type_summary {tree : FileTree} (now : Timestamp) :
    (tree.summary now).type = Condition.readyType := by
  unfold summary summaryOf
  split
  · rfl
  · split <;> rfl

/-- The sum of a tree says that the version is ready exactly if every file has been synced or
skipped. -/
theorem holds_summary_iff (now : Timestamp) (tree : FileTree) :
    (tree.summary now).holds = true ↔ ∀ file ∈ tree.allFiles, file.phase.isSettled = true := by
  unfold summary summaryOf
  split
  · rename_i file found
    have failed : file.phase = .failed := by simpa using List.find?_some found
    have unsettled : file.phase.isSettled ≠ true := by simp [failed, Phase.isSettled]
    constructor
    · intro holds
      simp [Condition.ready, Condition.holds] at holds
    · intro settled
      exact absurd (settled file (List.mem_of_find?_eq_some found)) unsettled
  · split
    · rename_i settled
      simpa [Condition.ready, Condition.holds] using settled
    · rename_i unsettled
      simpa [Condition.ready, Condition.holds] using unsettled

/-- The sum of a tree says the same at any time; only the time of the report differs. -/
theorem equivalent_summary (now now' : Timestamp) (tree : FileTree) :
    (tree.summary now).equivalent (tree.summary now') = true := by
  unfold summary summaryOf
  split
  · exact Condition.equivalent_ready now now' _ _ _
  · split
    · exact Condition.equivalent_ready now now' _ _ _
    · exact Condition.equivalent_ready now now' _ _ _

/-- The report before a sync never says that the version is ready, and it is made only where
no report says so. -/
theorem syncingCondition?_cases {now : Timestamp} {conditions : List Condition}
    {condition : Condition} (made : syncingCondition? now conditions = some condition) :
    condition.type = Condition.readyType ∧ condition.holds = false ∧
      (Condition.findReady? conditions).any Condition.holds = false := by
  unfold syncingCondition? at made
  split at made
  · rename_i empty
    cases made
    rw [List.isEmpty_iff.mp empty]
    exact ⟨rfl, rfl, rfl⟩
  split at made
  · cases made
  · rename_i ready found
    split at made
    · cases made
    · rename_i unready
      cases made
      exact ⟨rfl, rfl, by simpa [found] using unready⟩

end FileTree

/-- What a run writes is true, whatever status it has found: readiness is reported as the sum of the
very tree that is written with it. -/
theorem SyncPlan.truthful_commitStatus (stored : Option Status) (tree : FileTree)
    (now : Timestamp) : (commitStatus stored tree now).Truthful := by
  intro ready
  have holds := (Status.isReady_setCondition _ (FileTree.type_summary now)).mp ready
  exact (FileTree.holds_summary_iff now tree).mp holds

/-- A run that finds what it has written itself, with its tree, writes the same: the report that it
makes says the same, so that the old one stays with its time. -/
theorem SyncPlan.commitStatus_again (stored : Option Status) (tree : FileTree)
    (now now' : Timestamp) :
    commitStatus (some (commitStatus stored tree now)) tree now' = commitStatus stored tree now := by
  unfold commitStatus Status.setCondition
  simp only [Option.getD_some,
    Condition.set_set (FileTree.equivalent_summary now now' tree)]

namespace Document

variable {document : Document} {now : Timestamp} {lineage : List String}

/-- A comparison does not change whether the version is called ready: a report that says so is left
alone, and the report that is made otherwise says that files are being synced. -/
theorem isReady_target_iff :
    (document.reconcile now lineage).target.IsReady ↔ document.statusOrInitial.IsReady := by
  unfold reconcile
  dsimp only
  split
  · rename_i condition made
    obtain ⟨own, denies, unready⟩ := FileTree.syncingCondition?_cases made
    have denied := Status.isReady_setCondition document.statusOrInitial own
    rw [denies] at denied
    simpa [Status.IsReady, Status.ready?, Status.setCondition, unready] using denied
  · exact Iff.rfl

/-- A file of a target has just been entered, or it was in the status before. -/
theorem mem_target {file : FileRecord}
    (listed : file ∈ (document.reconcile now lineage).target.files.allFiles) :
    file = .blank file.path .processing ∨ file ∈ document.files.allFiles := by
  obtain ⟨group, member, inside⟩ := List.mem_flatMap.mp listed
  refine (entered_or_recorded ⟨group, member, rfl, inside⟩).2.imp_right fun recorded => ?_
  obtain ⟨⟨former, known, -, found⟩, -⟩ := FileTree.records_of_record? recorded
  exact List.mem_flatMap.mpr ⟨former, known, found⟩

/-- A comparison of a status that is true but for new files is true but for new files. -/
theorem truthfulButNew_target (truthful : document.statusOrInitial.TruthfulButNew) :
    (document.reconcile now lineage).target.TruthfulButNew := by
  intro ready file listed
  rcases mem_target listed with new | former
  · exact .inr new
  · rw [← files_statusOrInitial] at former
    exact truthful (isReady_target_iff.mp ready) file former

end Document

end DatasetSync
