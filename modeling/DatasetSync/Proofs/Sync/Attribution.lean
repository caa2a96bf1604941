import DatasetSync.Proofs.FileTree.Target
import DatasetSync.Proofs.Pool.Stations

/-!
# Which file a completion is for

A copy job does not carry the file that it was made for. When it has come to its end, the file
is looked up again: the path is read off the source key, and then the source and the path are
searched for. The key is written by the kind of the source and read by its name, and groups
are told apart by their names only. So a completion ends at its own file exactly if the path of
the file does not read like a key of a version that the name of its source seems to inherit
from, and if no declared source bears the name of the inherited one.

Whether the file that is found may take the step is another question.
-/

namespace DatasetSync

/-- The path of a file of a source can be read off the key that it is copied from. -/
def Reference.Recoverable (dataset : String) (source : Reference) (path : String) : Prop :=
  match Layout.lineageParent? source.name with
  | some parent => source.kind = versionedDatasetKind ∨
      Text.startsWith (Layout.versionPrefix dataset parent) path = false
  | none => source.kind ≠ versionedDatasetKind

/-- The path of a declared file cannot be recovered if its source is named as if it inherited
from a version, and the path reads like a key of that version. -/
theorem Reference.not_recoverable {source : Reference} (own : source.kind ≠ versionedDatasetKind)
    {dataset version : String} (named : source.name = Layout.lineageName version) (rest : String) :
    ¬ source.Recoverable dataset (Layout.versionPrefix dataset version ++ rest) := by
  have reads : Text.stripPrefix? (Layout.versionPrefix dataset version)
      (Layout.versionPrefix dataset version ++ rest) = some rest :=
    Text.stripPrefix?_eq_some_iff.mpr rfl
  simp [Recoverable, named, own, Text.startsWith, reads]

/-- What is left of a text without a first part that is not empty is another text. -/
theorem Text.stripPrefix?_ne {leading whole rest : String} (some : leading ≠ "")
    (stripped : stripPrefix? leading whole = .some rest) : rest ≠ whole := by
  rintro rfl
  have split := congrArg (fun text => text.toList.length) (stripPrefix?_eq_some_iff.mp stripped)
  have long : leading.toList.length ≠ 0 := by
    intro none
    exact some (String.toList_inj.mp (by simpa using none))
  simp only [String.toList_append, List.length_append] at split
  omega

/-- No version has the empty prefix, since each prefix begins with the name of the folder of all
datasets. -/
theorem Layout.versionPrefix_ne (dataset version : String) : versionPrefix dataset version ≠ "" := by
  intro none
  have first := congrArg (fun text => text.toList.length) none
  simp [versionPrefix] at first

namespace SyncPlan

variable {plan : SyncPlan} {source : Reference} {file : FileRecord} {job : SyncJob}
  {location : Option Location} {i j : Nat}

/-- Where the search for the files of a source can come to when they are copied. -/
theorem canLocate_iff (copies : plan.mode = .copy) :
    plan.CanLocate source location ↔
      (source.kind = Reference.versionedDatasetKind ∧
        location = some (plan.inheritedLocation source)) ∨
      (source.kind ≠ Reference.versionedDatasetKind ∧ ∃ bucket, location = some ⟨bucket, ""⟩) := by
  unfold CanLocate locate? locate
  rw [copies]
  by_cases inherited : source.kind = Reference.versionedDatasetKind
  · rw [if_pos inherited]
    constructor
    · rintro ⟨calls, leads⟩
      obtain ⟨-, same⟩ := Program.done_leads_iff.mp leads
      cases same
      exact .inl ⟨inherited, rfl⟩
    · rintro (⟨-, rfl⟩ | ⟨impossible, -⟩)
      · exact ⟨[], .here _⟩
      · exact absurd inherited impossible
  · rw [if_neg inherited]
    constructor
    · rintro ⟨calls, leads⟩
      obtain ⟨answer, later, -, after⟩ := Program.ask_ended leads
      · cases answer with
        | error error =>
          obtain ⟨-, impossible⟩ := Program.done_leads_iff.mp after
          cases impossible
        | ok bucket =>
          obtain ⟨-, same⟩ := Program.done_leads_iff.mp after
          cases same
          exact .inr ⟨inherited, bucket, rfl⟩
    · rintro (⟨impossible, -⟩ | ⟨-, bucket, rfl⟩)
      · exact absurd impossible inherited
      · let answered : Exchange Calls := ⟨.resolve source plan.document.ns, .ok bucket⟩
        have asked : (Call.resolveBucket source plan.document.ns).Leads [answered]
            (.done (.ok bucket)) := .ask _ (.here _)
        exact ⟨[answered], .ask _ (.here _)⟩

/-- The job that is made for a file, and the files for which one is made. -/
theorem jobFor?_eq_some_iff :
    plan.jobFor? location source file = some job ↔
      (plan.mode = .copy → file.phase = .processing) ∧ Text.endsWith '/' file.path = false ∧
        job = {
          source := location.map fun place => ⟨place.bucket, place.leading ++ file.path⟩
          destination := plan.destination file.path
          owner := source.qualified "" } := by
  unfold jobFor?
  by_cases idle : plan.mode = .copy ∧ file.phase ≠ .processing
  · simp [idle.1, idle.2]
  · by_cases folder : Text.endsWith '/' file.path = true
    · simp [folder]
    · have due : plan.mode = .copy → file.phase = .processing := fun copies =>
        not_not.mp fun other => idle ⟨copies, other⟩
      simp only [Bool.not_eq_true] at folder
      rw [if_neg (by simpa using idle), folder]
      simp only [Bool.false_eq_true, if_false, Option.some.injEq, true_and]
      exact ⟨fun same => ⟨due, same.symm⟩, fun both => both.2.symm⟩

/-- The path is read off the key of a copy exactly if it can be recovered. -/
theorem logicalPath_eq_iff (copies : plan.mode = .copy)
    (located : plan.CanLocate source location)
    (made : plan.jobFor? location source file = some job) :
    job.logicalPath plan.document.datasetName = file.path ↔
      source.Recoverable plan.document.datasetName file.path := by
  obtain ⟨-, -, rfl⟩ := jobFor?_eq_some_iff.mp made
  unfold Reference.Recoverable SyncJob.logicalPath SyncJob.sourceKey
  dsimp only [Reference.qualified]
  rcases (canLocate_iff copies).mp located with ⟨inherited, rfl⟩ | ⟨own, bucket, rfl⟩
  · cases parent : Layout.lineageParent? source.name with
    | none =>
      simp only [Option.map_some, Option.getD_some, inheritedLocation, parent, Option.getD_none,
        inherited, ne_eq, not_true_eq_false, iff_false]
      exact (Text.stripPrefix?_ne (Layout.versionPrefix_ne _ _)
        (Text.stripPrefix?_eq_some_iff.mpr rfl)).symm
    | some version =>
      have stripped : Text.stripPrefix? (Layout.versionPrefix plan.document.datasetName version)
          (Layout.versionPrefix plan.document.datasetName version ++ file.path) =
            some file.path := Text.stripPrefix?_eq_some_iff.mpr rfl
      simp [inheritedLocation, parent, inherited, stripped]
  · cases parent : Layout.lineageParent? source.name with
    | none => simp [own]
    | some version =>
      simp only [Option.map_some, Option.getD_some, String.empty_append, own, false_or]
      unfold Text.startsWith
      cases stripped : Text.stripPrefix? (Layout.versionPrefix plan.document.datasetName version)
          file.path with
      | none => simp
      | some rest => simpa using Text.stripPrefix?_ne (Layout.versionPrefix_ne _ _) stripped

/-- The path that is read off the key of a copy of a declared file is the path of the file, or it
is shorter. -/
theorem logicalPath_shorter (copies : plan.mode = .copy) (located : plan.CanLocate source location)
    (made : plan.jobFor? location source file = some job)
    (own : source.kind ≠ Reference.versionedDatasetKind)
    (astray : ¬ source.Recoverable plan.document.datasetName file.path) :
    (job.logicalPath plan.document.datasetName).length < file.path.length := by
  have misread := mt (logicalPath_eq_iff copies located made).mp astray
  obtain ⟨-, -, rfl⟩ := jobFor?_eq_some_iff.mp made
  rcases (canLocate_iff copies).mp located with ⟨inherited, -⟩ | ⟨-, bucket, rfl⟩
  · exact absurd inherited own
  unfold SyncJob.logicalPath SyncJob.sourceKey at misread ⊢
  simp only [Reference.qualified, Option.map_some, Option.getD_some, String.empty_append]
    at misread ⊢
  cases parent : Layout.lineageParent? source.name with
  | none => simp [parent] at misread
  | some version =>
    simp only [parent] at misread ⊢
    cases stripped : Text.stripPrefix? (Layout.versionPrefix plan.document.datasetName version)
        file.path with
    | none => simp [stripped] at misread
    | some rest =>
      have some : (Layout.versionPrefix plan.document.datasetName version).length ≠ 0 := by
        simp [Layout.versionPrefix]
      rw [Option.getD_some, Text.stripPrefix?_eq_some_iff.mp stripped, String.length_append]
      omega

/-- A job is made for a file of a plan. -/
def MakesFor (plan : SyncPlan) (i j : Nat) (job : SyncJob) : Prop :=
  ∃ group file location, plan.groups[i]? = some group ∧ group.files[j]? = some file ∧
    plan.CanLocate group.source location ∧ plan.jobFor? location group.source file = some job

/-- Every job that a producer hands over is made for a file of its plan. -/
theorem produce_makes (plan : SyncPlan) :
    plan.produce.AsksOnly (Pool.Production.Within fun job => ∃ i j, plan.MakesFor i j job) := by
  refine produceGroups_within false fun group listed file member location job located made => ?_
  obtain ⟨i, present⟩ := List.mem_iff_getElem?.mp listed
  obtain ⟨j, present'⟩ := List.mem_iff_getElem?.mp member
  exact ⟨i, j, group, file, location, present, present', located, made⟩

end SyncPlan

namespace Document

open SyncPlan

variable {document : Document} {now : Timestamp} {lineage : List String} {sizing : Pool.Sizing}

/-- The copy of what a comparison finds is to be processed, as a look plans it. -/
def targetCopy (document : Document) (now : Timestamp) (lineage : List String)
    (sizing : Pool.Sizing) : SyncPlan :=
  .copying { document with status := some (document.reconcile now lineage).target } sizing

/-- The copy of a target copies. -/
@[simp] theorem mode_targetCopy :
    (document.targetCopy now lineage sizing).mode = .copy := rfl

/-- The copy of a target has the groups of the target. -/
@[simp] theorem groups_targetCopy :
    (document.targetCopy now lineage sizing).groups =
      (document.reconcile now lineage).target.files := rfl

/-- The copy of a target is of the dataset of its document. -/
@[simp] theorem datasetName_targetCopy :
    (document.targetCopy now lineage sizing).document.datasetName = document.datasetName := rfl

/-- The look-up that follows the completion of a copy ends at the file that the copy was made
for exactly if the path can be recovered and no declared source stands in for the inherited
one. -/
theorem completion_found_iff {i j : Nat} {job : SyncJob} {group : SourceFiles} {file : FileRecord}
    (made : (document.targetCopy now lineage sizing).MakesFor i j job)
    (present : (document.reconcile now lineage).target.files[i]? = some group)
    (listed : group.files[j]? = some file) :
    (document.reconcile now lineage).target.files.Finds job.owner
        (job.logicalPath document.datasetName) i j ↔
      group.source.Recoverable document.datasetName file.path ∧
        ¬ (group.source.kind = Reference.versionedDatasetKind ∧ document.Shadows) := by
  obtain ⟨group', file', location, present', listed', located, made⟩ := made
  rw [groups_targetCopy] at present'
  obtain rfl : group = group' := Option.some.inj (present.symm.trans present')
  obtain rfl : file = file' := Option.some.inj (listed.symm.trans listed')
  have recovered : job.logicalPath document.datasetName = file.path ↔
      group.source.Recoverable document.datasetName file.path := by
    rw [← @datasetName_targetCopy document now lineage sizing]
    exact logicalPath_eq_iff mode_targetCopy located made
  have owner : job.owner = group.source.qualified "" := by
    obtain ⟨-, -, rfl⟩ := jobFor?_eq_some_iff.mp made
    rfl
  have named : ∀ other ∈ (document.reconcile now lineage).target.files,
      other.source.qualified "" = other.source.qualified document.ns :=
    fun other member => qualified_of_mem_target member ""
  rw [FileTree.finds_iff target_inOrder present listed, ← earlier_iff_shadows present, owner,
    ← recovered, named group (List.mem_of_getElem? present)]
  constructor
  · rintro ⟨-, recoverable, distinct⟩
    refine ⟨recoverable.symm, ?_⟩
    rintro ⟨earlier, other, low, found, same⟩
    exact distinct earlier other low found
      ((named other (List.mem_of_getElem? found)).trans same)
  · rintro ⟨recoverable, alone⟩
    refine ⟨rfl, recoverable.symm, ?_⟩
    intro earlier other low found same
    exact alone ⟨earlier, other, low, found,
      (named other (List.mem_of_getElem? found)).symm.trans same⟩

/-- Every job that the copy of a target hands over is made for a file of the target, and the
look-up that follows its completion ends at that file exactly if the path can be recovered and
no declared source stands in for the inherited one. -/
theorem completions_reach_file_iff {limits : Pool.Sizing} {cancelled : Bool}
    {pool : Pool.State SyncJob (Except StorageError Unit) SyncError} {job : SyncJob}
    (reachable : Pool.Reachable limits
      (.initial (document.targetCopy now lineage sizing).produce cancelled) pool)
    (accepted : job ∈ pool.floor.accepted) :
    (∃ i j, (document.targetCopy now lineage sizing).MakesFor i j job) ∧
      ∀ i j group file, (document.targetCopy now lineage sizing).MakesFor i j job →
        (document.reconcile now lineage).target.files[i]? = some group →
        group.files[j]? = some file →
        ((document.reconcile now lineage).target.files.Finds job.owner
            (job.logicalPath document.datasetName) i j ↔
          group.source.Recoverable document.datasetName file.path ∧
            ¬ (group.source.kind = Reference.versionedDatasetKind ∧ document.Shadows)) := by
  refine ⟨(reachable.accepted (document.targetCopy now lineage sizing).produce_makes).2 job accepted,
    ?_⟩
  intro i j group file made present listed
  exact completion_found_iff made present listed

/-- A document whose source is named as if it were inherited, and whose path reads like a key
of the version that the name speaks of. -/
def misreadDocument : Document :=
  { metadata := { Metadata.empty with name := some "ds-v1", ns := some "team-a" }
    spec := { dataset := { apiGroup := none, kind := "Dataset", name := "ds", ns := none }
              version := "v1", inheritedFrom := none, released := false
              fileGroups := [{
                source := { apiGroup := none, kind := Reference.datasourceKind
                            name := "inherited-from-v9", ns := none }
                paths := ["dataset/ds/v9/a.txt"] }] }
    status := none }

/-- The copy of the one file of the misread document. -/
def misreadJob : SyncJob :=
  { source := some ⟨"raw", "dataset/ds/v9/a.txt"⟩
    destination := ⟨"team-a", "dataset/ds/v1/dataset/ds/v9/a.txt"⟩
    owner := ⟨"team-a", "inherited-from-v9"⟩ }

/-- The group of the one file of the misread document. -/
def misreadGroup : SourceFiles :=
  { source := FileTree.declaredReference ⟨"team-a", Layout.lineageName "v9"⟩
    files := [.blank (Layout.versionPrefix "ds" "v9" ++ "a.txt") .processing] }

/-- The target of the misread document lists an empty group of inherited files in front, so that the
misread group is the second one. -/
theorem misread_target (now : Timestamp) :
    (misreadDocument.reconcile now []).target.files[1]? = some misreadGroup := rfl

/-- The job of the misread document is made for its file and handed over: the bucket of the version
and the source are both found. -/
theorem misreadJob_accepted (now : Timestamp) :
    (misreadDocument.targetCopy now [] .standard).MakesFor 1 0 misreadJob ∧
      ∃ pool : Pool.State SyncJob (Except StorageError Unit) SyncError,
        Pool.Reachable .standard
          (.initial (misreadDocument.targetCopy now [] .standard).produce false) pool ∧
        misreadJob ∈ pool.floor.accepted := by
  constructor
  · exact ⟨misreadGroup, _, some ⟨"raw", ""⟩, rfl, rfl,
      (canLocate_iff rfl).mpr (.inr ⟨by decide, "raw", rfl⟩), rfl⟩
  · have going : Pool.Reachable .standard
        (.initial (misreadDocument.targetCopy now [] .standard).produce false :
          Pool.State SyncJob (Except StorageError Unit) SyncError) _ :=
      Pool.Reachable.start.step (.observe _)
    have checked := going.step (.call (.object (.bucketExists "team-a")) _ (.ok true))
    have next := checked.step (.observe _)
    have resolved := next.step (.call (.resolve _ _) _ (.ok "raw"))
    have continued := resolved.step (.observe _)
    have queued := continued.step (.enqueue _ _ rfl)
    exact ⟨_, queued, List.mem_cons_self⟩

/-- A completion does not reach the file that its job was made for: the path that is read off the
source key lacks what looks like the prefix of an inherited version, and no file has that path. -/
theorem completion_misses_file :
    ∃ (document : Document) (now : Timestamp) (lineage : List String) (sizing : Pool.Sizing)
      (pool : Pool.State SyncJob (Except StorageError Unit) SyncError) (job : SyncJob) (i j : Nat),
      Pool.Reachable sizing
        (.initial (document.targetCopy now lineage sizing).produce false) pool ∧
      job ∈ pool.floor.accepted ∧
      (document.targetCopy now lineage sizing).MakesFor i j job ∧
      ¬ (document.reconcile now lineage).target.files.Finds job.owner
        (job.logicalPath document.datasetName) i j := by
  obtain ⟨made, pool, reachable, accepted⟩ := misreadJob_accepted "2024-05-01T00:00:00+00:00"
  refine ⟨_, _, _, _, pool, misreadJob, 1, 0, reachable, accepted, made, fun found => ?_⟩
  have recoverable := ((completion_found_iff made (misread_target _) rfl).mp found).1
  exact Reference.not_recoverable (by decide) rfl "a.txt" recoverable

/-- The law of completions, applied to the job of the misread document. -/
theorem misread_completion_iff :
    (misreadDocument.reconcile "2024-05-01T00:00:00+00:00" []).target.files.Finds
        misreadJob.owner (misreadJob.logicalPath "ds") 1 0 ↔
      misreadGroup.source.Recoverable "ds" "dataset/ds/v9/a.txt" ∧
        ¬ (misreadGroup.source.kind = Reference.versionedDatasetKind ∧ misreadDocument.Shadows) := by
  obtain ⟨made, pool, reachable, accepted⟩ := misreadJob_accepted "2024-05-01T00:00:00+00:00"
  exact (completions_reach_file_iff reachable accepted).2 1 0 misreadGroup _ made
    (misread_target _) rfl

end Document

end DatasetSync
