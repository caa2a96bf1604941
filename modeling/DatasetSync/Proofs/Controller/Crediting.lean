import DatasetSync.Proofs.Controller.Effect
import DatasetSync.Proofs.FileTree.Aligned
import DatasetSync.Proofs.Sync.Removal

/-!
# Credited files

A status credits a file if it records the file as synced or skipped. Whatever a run credits was
credited in the tree that it started from, or goes back to a copy of its own: a file of the same
source was being processed, was copied, and its object is at its place. That is the credited file
itself, with the exception of declared files whose path reads like a key of the version that the
name of their source speaks of. The copy of such a file is attributed to a shorter path.

Nothing is assumed of the tree, of what the stores refuse, or of how the run ends. A file is known
by its source and its path; a version or a dataset has no part in it.
-/

namespace DatasetSync

namespace Document

open FileTree SyncPlan

variable {document : Document} {now : Timestamp} {lineage : List String} {sizing : Pool.Sizing}
  {source : QualifiedName} {path : String} {group : SourceFiles} {file : FileRecord}
  {before after : Backends} {outcome : Except SyncError RunOutcome}

/-- The status records a file as synced or skipped. -/
def Credits (document : Document) (source : QualifiedName) (path : String) : Prop :=
  ∃ file, document.recorded.record? source path = some file ∧ file.phase.isSettled = true

/-- A status with no records credits nothing, so that a new document starts without any credit to be
carried. -/
theorem not_credits_of_fresh (fresh : document.status = none) : ¬ document.Credits source path := by
  rintro ⟨file, found, -⟩
  obtain ⟨⟨group, member, -⟩, -⟩ := records_of_record? found
  simp [files, fresh] at member

/-- Where all files are settled, each one that is listed is credited, because the file that is found
for it is one of them. -/
theorem credits_of_settled (settled : ∀ file ∈ document.files.allFiles, file.phase.isSettled = true)
    (listed : document.files.Lists document.ns source path) : document.Credits source path := by
  obtain ⟨file, found⟩ := record?_of_lists listed
  obtain ⟨⟨group, member, -, inGroup⟩, -⟩ := records_of_record? found
  exact ⟨file, found, settled file (List.mem_flatMap.mpr ⟨group, member, inGroup⟩)⟩

/-- A settled file of a target is credited in the status that the target was made from. -/
theorem credits_of_target
    (records : (document.reconcile now lineage).target.files.Records document.ns source file)
    (settled : file.phase.isSettled = true) : document.Credits source file.path := by
  rcases (target_cases records).2 with processing | found
  · rw [processing] at settled
    cases settled
  · exact ⟨file, found, settled⟩

/-- A file of a target is a declared one of its source, or an inherited one under the reference of
the lineage. -/
theorem origin_of_mem_target (member : group ∈ (document.reconcile now lineage).target.files)
    (inGroup : file ∈ group.files) :
    (∃ source, group.source = declaredReference source ∧ document.Declares source file.path) ∨
      (group.source = document.lineageReference ∧ document.spec.parent?.isSome ∧
        file.path ∈ lineage) := by
  obtain ⟨declared, own, same, paths⟩ := declared_of_mem_target member
  have listed : file.path ∈ declared.files.map FileRecord.path := by
    rw [paths]
    exact List.mem_map_of_mem inGroup
  rcases mem_declaredTree own with ⟨source, declaredPaths, found, rfl⟩ | rfl
  · rw [paths_fresh] at listed
    exact .inl ⟨source, same.symm, mem_declaredPaths_iff.mp ⟨declaredPaths, found, listed⟩⟩
  · rw [inherited_eq] at same listed
    dsimp only at same listed
    split at listed
    · rename_i parent
      rw [paths_fresh] at listed
      exact .inr ⟨same.symm, parent, (OrderedSet.mem_ofList lineage _).mp listed⟩
    · cases listed

/-- The path of a declared file reads like a key of the version that the name of its source speaks
of. -/
def Misreads (document : Document) (source : QualifiedName) (path : String) : Prop :=
  document.Declares source path ∧
    ¬ (declaredReference source).Recoverable document.datasetName path

/-- The copy of one path of a source is attributed to another one: to the path itself, or to a
shorter one if the path is misread. -/
def Attributes (document : Document) (source : QualifiedName) (origin path : String) : Prop :=
  (origin = path ∧ ¬ document.Misreads source path) ∨
    (document.Misreads source origin ∧ path.length < origin.length)

/-- A copy of a target may leave a file settled: it was settled in the target, or a file of the
same source was being processed there, the copy of that one is attributed to the path, and its
object is at its place. -/
def MaySettle (document : Document) (target : FileTree) (objects : ObjectStore)
    (source : QualifiedName) (path : String) : Prop :=
  (∃ former, target.Records document.ns source former ∧ former.path = path ∧
    former.phase.isSettled = true) ∨
  ∃ origin, target.Records document.ns source origin ∧ origin.phase = .processing ∧
    document.Attributes source origin.path path ∧ objects.Holds (document.place origin.path)

/-- To what the copy of a file of a target is attributed, if no file is listed twice. A declared
file may be misread for an inherited one; an inherited file is read by the name that its source was
given. -/
theorem attributes_of_made {job : SyncJob} {location : Option Location}
    (single : ¬ document.Doubles lineage)
    (member : group ∈ (document.reconcile now lineage).target.files) (inGroup : file ∈ group.files)
    (located : (document.targetCopy now lineage sizing).CanLocate group.source location)
    (made : (document.targetCopy now lineage sizing).jobFor? location group.source file = some job) :
    document.Attributes (group.source.qualified document.ns) file.path
      (job.logicalPath document.datasetName) := by
  have reads : job.logicalPath document.datasetName = file.path ↔
      group.source.Recoverable document.datasetName file.path := by
    rw [← @datasetName_targetCopy document now lineage sizing]
    exact logicalPath_eq_iff mode_targetCopy located made
  rcases origin_of_mem_target member inGroup with ⟨source, same, declares⟩ | ⟨same, parent, held⟩
  · rw [same] at reads ⊢
    by_cases plain : (declaredReference source).Recoverable document.datasetName file.path
    · rw [reads.mpr plain]
      exact .inl ⟨rfl, fun misread => misread.2 plain⟩
    · have own : Reference.datasourceKind ≠ Reference.versionedDatasetKind := by decide
      refine .inr ⟨⟨declares, plain⟩, ?_⟩
      rw [same] at located made
      rw [← @datasetName_targetCopy document now lineage sizing] at plain ⊢
      exact logicalPath_shorter mode_targetCopy located made own plain
  · have plain : group.source.Recoverable document.datasetName file.path := by
      rw [same, Reference.Recoverable, lineageReference, Layout.lineageParent?_lineageName]
      exact .inl rfl
    rw [reads.mpr plain, same]
    exact .inl ⟨rfl, fun misread => single ⟨parent, _, held, misread.1⟩⟩

/-- A file that a run leaves settled was settled in the target, or a file of the same source was
being processed, its copy is attributed to the path, and its object is at its place. The group that
is found for a completion has the source of the group that the job was made for. -/
theorem credited_by_run (single : ¬ document.Doubles lineage)
    (runs : (document.targetCopy now lineage sizing).Runs before outcome after) :
    ∃ completions, (document.targetCopy now lineage sizing).Concludes
        (recordAll document.datasetName completions (document.reconcile now lineage).target.files)
        before.documents after.documents ∧
      ∀ source file, FileTree.Records document.ns (recordAll document.datasetName completions
          (document.reconcile now lineage).target.files) source file →
        file.phase.isSettled = true →
        document.MaySettle (document.reconcile now lineage).target.files after.objects source
          file.path := by
  obtain ⟨history, pool, tree, middle, produced, working, -, performs⟩ := runs.cases
  obtain ⟨concludes, objects⟩ := concludes_of_performs performs
  refine ⟨completions history, ?_, fun source file records settled => ?_⟩
  · rw [← working.documents]
    have same := working.tree_eq
    rw [same] at concludes
    exact concludes
  rcases settled_recordAll target_inOrder records settled with
    former | ⟨completion, handed, ok, path, group, member, named, own⟩
  · exact .inl former
  refine .inr ?_
  obtain ⟨attempt, attempted, sameJob, sameResult⟩ := working.attempt_of_completion handed
  obtain ⟨i, j, group', origin, location, present, listed, located, made⟩ :=
    (working.reachable.1.accepted (SyncPlan.produce_makes _)).2 _
      (working.accepted_of_attempt attempted)
  have member' := List.mem_of_getElem? present
  have inGroup := List.mem_of_getElem? listed
  have held := working.holds mode_targetCopy (fun before after change place present => by
    obtain ⟨now, rfl⟩ := change
    exact present) attempt attempted (sameResult.trans ok)
  rw [sameJob] at made held
  have attributed := attributes_of_made single member' inGroup located made
  obtain ⟨processing, -, same⟩ := jobFor?_eq_some_iff.mp made
  have own' : completion.job.owner = group'.source.qualified "" := congrArg SyncJob.owner same
  have place : completion.job.destination = document.place origin.path :=
    congrArg SyncJob.destination same
  have sources : group'.source.qualified document.ns = source := by
    rw [← named, ← qualified_of_mem_target member "",
      ← @qualified_of_mem_target document now lineage group' member' "", own, own']
  rw [sources, path] at attributed
  rw [place] at held
  exact ⟨origin, ⟨group', member', sources, inGroup⟩, processing rfl, attributed, objects ▸ held⟩

end Document

end DatasetSync
