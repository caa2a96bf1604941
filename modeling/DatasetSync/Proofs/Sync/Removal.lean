import DatasetSync.Proofs.Controller.Look
import DatasetSync.Proofs.FileTree.Diff
import DatasetSync.Proofs.Pool.Stations

/-!
# What removals hit

The comparison of declared with recorded files knows a file by its source and its path. The
object of a file is known by its key, and the key names neither the source nor one leading
slash of the path. So two recorded files may share one object, and if one of them is removed
while the other is kept, the object of the kept one is removed. This is the only way in which
a removal hits a kept file.
-/

namespace DatasetSync

/-- Two paths of a version have one key exactly when they differ at most by a leading slash. -/
theorem Layout.objectKey_inj_iff {dataset version path path' : String} :
    objectKey dataset version path = objectKey dataset version path' ↔
      relative path = relative path' := by
  unfold objectKey
  exact String.append_right_inj _

namespace SyncPlan

variable {plan : SyncPlan} {location : Option Location} {source : Reference} {file : FileRecord}
  {job : SyncJob} {path path' : String}

/-- Two paths have one place exactly when they differ at most by a leading slash. Nothing of their
sources enters into the place, so that files of different sources can share one. -/
theorem destination_inj_iff :
    plan.destination path = plan.destination path' ↔
      Layout.relative path = Layout.relative path' := by
  unfold destination
  rw [ObjectAddress.mk.injEq]
  simp only [true_and, Layout.objectKey_inj_iff]

/-- The job of a file goes to the place of its path, and the path does not end in a slash. -/
theorem destination_of_jobFor? (made : plan.jobFor? location source file = some job) :
    job.destination = plan.destination file.path ∧ Text.endsWith '/' file.path = false := by
  unfold jobFor? at made
  split at made
  · cases made
  · split at made
    · cases made
    · rename_i ends
      cases made
      exact ⟨rfl, by simpa using ends⟩

/-- A file that is removed has a job at its place, unless its path ends in a slash. Its phase does
not matter. -/
theorem jobFor?_of_removes (removes : plan.mode = .remove)
    (ends : Text.endsWith '/' file.path = false) :
    ∃ job, plan.jobFor? none source file = some job ∧
      job.destination = plan.destination file.path := by
  unfold jobFor?
  simp [removes, ends]

/-- A place is hit by a removal exactly when it is the place of one of the removed files. -/
theorem hits_iff (removes : plan.mode = .remove) {place : ObjectAddress} :
    plan.Hits place ↔
      ∃ group ∈ plan.groups, ∃ file ∈ group.files,
        Text.endsWith '/' file.path = false ∧ plan.destination file.path = place := by
  constructor
  · rintro ⟨job, member, rfl⟩
    obtain ⟨group, listed, made⟩ := List.mem_flatMap.mp member
    obtain ⟨file, member, made⟩ := List.mem_filterMap.mp made
    obtain ⟨hits, ends⟩ := destination_of_jobFor? made
    exact ⟨group, listed, file, member, ends, hits.symm⟩
  · rintro ⟨group, listed, file, member, ends, rfl⟩
    obtain ⟨job, made, hits⟩ := @jobFor?_of_removes plan group.source file removes ends
    refine ⟨job, List.mem_flatMap.mpr ⟨group, listed, ?_⟩, hits⟩
    exact List.mem_filterMap.mpr ⟨file, member, made⟩

end SyncPlan

namespace Document

/-- The place of the object of a path. -/
def place (document : Document) (path : String) : ObjectAddress :=
  ⟨document.datasetNs, Layout.objectKey document.datasetName document.spec.version path⟩

/-- A file that is recorded but not declared has its object at a place. -/
def Strays (document : Document) (lineage : List String) (place : ObjectAddress) : Prop :=
  ∃ source path, document.files.Lists document.ns source path ∧
    ¬ (document.declaredTree lineage).Lists document.ns source path ∧
    Text.endsWith '/' path = false ∧ document.place path = place

/-- Two recorded files share one object, and only one of them is still declared. -/
structure Clash (document : Document) (lineage : List String) (source : QualifiedName)
    (kept : FileRecord) (source' : QualifiedName) (gone : FileRecord) : Prop where
  /-- The kept file was recorded and is declared. -/
  recorded : document.files.Records document.ns source kept
  declared : (document.declaredTree lineage).Lists document.ns source kept.path
  /-- The other one was recorded as well and is not declared any more. -/
  recorded' : document.files.Records document.ns source' gone
  undeclared : ¬ (document.declaredTree lineage).Lists document.ns source' gone.path
  /-- They are two files of the status. -/
  distinct : (source', gone.path) ≠ (source, kept.path)
  /-- Their paths differ at most by a leading slash. -/
  shared : Layout.relative gone.path = Layout.relative kept.path

end Document

namespace Policy

variable {policy : Policy} {document : Document} {now : Timestamp} {lineage : List String}

/-- The removal of a look hits exactly the places of the files that are recorded but not
declared. -/
theorem hits_removal_iff {place : ObjectAddress} :
    (policy.removal document now lineage).Hits place ↔ document.Strays lineage place := by
  rw [SyncPlan.hits_iff rfl]
  constructor
  · rintro ⟨group, listed, gone, member, ends, same⟩
    have deleted : ∃ group ∈ (document.reconcile now lineage).deleted, gone ∈ group.files :=
      ⟨group, listed, member⟩
    obtain ⟨source, path, found, undeclared⟩ := Document.mem_deleted_iff.mp deleted
    obtain ⟨recorded, rfl⟩ := FileTree.records_of_record? found
    exact ⟨source, gone.path, ⟨gone, recorded, rfl⟩, undeclared, ends, same⟩
  · rintro ⟨source, path, listed, undeclared, ends, same⟩
    obtain ⟨record, found⟩ := FileTree.record?_of_lists listed
    obtain ⟨-, rfl⟩ := FileTree.records_of_record? found
    obtain ⟨group, member, listed'⟩ : ∃ group ∈ (document.reconcile now lineage).deleted,
        record ∈ group.files :=
      Document.mem_deleted_iff.mpr ⟨source, record.path, found, undeclared⟩
    exact ⟨group, member, record, listed', ends, same⟩

/-- If a job that is made for a removal hits a file that the target keeps as synced, then that
file and a removed one are two recorded files that share one object. -/
theorem removal_hits_kept_only_on_clash {cancelled : Bool}
    {pool : Pool.State SyncJob (Except StorageError Unit) SyncError}
    (reachable : Pool.Reachable policy.sizing
      (.initial (policy.removal document now lineage).produce cancelled) pool)
    {job : SyncJob} (accepted : job ∈ pool.floor.accepted) {source : QualifiedName}
    {kept : FileRecord}
    (target : (document.reconcile now lineage).target.files.Records document.ns source kept)
    (succeeded : kept.phase = .succeeded)
    (hit : job.destination = (policy.removal document now lineage).destination kept.path) :
    ∃ source' gone, document.Clash lineage source kept source' gone := by
  obtain ⟨-, within⟩ := reachable.accepted (SyncPlan.produce_within _)
  obtain ⟨group, listed, gone, member, location, made⟩ := within job accepted
  obtain ⟨hits, -⟩ := SyncPlan.destination_of_jobFor? made
  have shared : Layout.relative gone.path = Layout.relative kept.path :=
    SyncPlan.destination_inj_iff.mp (hits.symm.trans hit)
  have deleted : ∃ group ∈ (document.reconcile now lineage).deleted, gone ∈ group.files :=
    ⟨group, listed, member⟩
  obtain ⟨source', path, found, undeclared⟩ := Document.mem_deleted_iff.mp deleted
  obtain ⟨recorded', rfl⟩ := FileTree.records_of_record? found
  obtain ⟨declared, processing | found'⟩ := Document.target_cases target
  · rw [succeeded] at processing
    cases processing
  · refine ⟨source', gone, ?_⟩
    refine ⟨(FileTree.records_of_record? found').1, declared, recorded', undeclared, ?_, shared⟩
    intro same
    injection same with sameSource samePath
    rw [sameSource, samePath] at undeclared
    exact undeclared declared

/-- Conversely, where two recorded files share one object and one of them is removed, a job of
the removal hits the other one, unless the path of the removed one ends in a slash. -/
theorem removal_hits_on_clash {source source' : QualifiedName} {kept gone : FileRecord}
    (clash : document.Clash lineage source kept source' gone)
    (ends : Text.endsWith '/' gone.path = false) :
    (policy.removal document now lineage).Hits
      ((policy.removal document now lineage).destination kept.path) := by
  have listed : document.files.Lists document.ns source' gone.path :=
    ⟨gone, clash.recorded', rfl⟩
  have shared : (policy.removal document now lineage).destination gone.path =
      (policy.removal document now lineage).destination kept.path :=
    SyncPlan.destination_inj_iff.mpr clash.shared
  rw [hits_removal_iff, ← shared]
  exact ⟨source', gone.path, listed, clash.undeclared, ends, rfl⟩

/-- A source of files in one namespace. -/
def sharedSource (name : String) : Reference :=
  { apiGroup := none, kind := Reference.datasourceKind, name, ns := some "team-a" }

/-- Two synced files of different sources have one path, and one of them is still declared. -/
def sharedDocument : Document :=
  { metadata := { Metadata.empty with name := some "ds-v1", ns := some "team-a" }
    spec := { dataset := { apiGroup := none, kind := "Dataset", name := "ds", ns := none }
              version := "v1", inheritedFrom := none, released := false
              fileGroups := [{ source := sharedSource "y", paths := ["a.txt"] }] }
    status := some
      { conditions := []
        files := [⟨sharedSource "x", [.blank "a.txt" .succeeded]⟩,
          ⟨sharedSource "y", [.blank "a.txt" .succeeded]⟩] } }

/-- The removal for the shared document makes a job for the path that both files have: the bucket is
there, and the first recorded file is not declared. -/
theorem sharedDocument_accepted (now : Timestamp) :
    ∃ (pool : Pool.State SyncJob (Except StorageError Unit) SyncError) (job : SyncJob),
      Pool.Reachable (default : Policy).sizing
        (.initial ((default : Policy).removal sharedDocument now []).produce false) pool ∧
      job ∈ pool.floor.accepted ∧
      job.destination =
        ((default : Policy).removal sharedDocument now []).destination "a.txt" := by
  have going : Pool.Reachable (default : Policy).sizing
      (.initial ((default : Policy).removal sharedDocument now []).produce false :
        Pool.State SyncJob (Except StorageError Unit) SyncError) _ :=
    Pool.Reachable.start.step (.observe _)
  have checked := going.step (.call (.object (.bucketExists "team-a")) _ (.ok true))
  have continued := checked.step (.observe _)
  have queued := continued.step (.enqueue _ _ rfl)
  exact ⟨_, _, queued, List.mem_cons_self, rfl⟩

/-- The target of the shared document keeps the synced file of the second source, which is declared
and recorded. -/
theorem sharedDocument_target :
    (sharedDocument.reconcile "2024-05-01T00:00:00+00:00" []).target.files.Records
      sharedDocument.ns ⟨"team-a", "y"⟩ (.blank "a.txt" .succeeded) :=
  ⟨⟨sharedSource "y", [.blank "a.txt" .succeeded]⟩, by decide, rfl, List.mem_cons_self⟩

/-- The target keeps a file as synced, and a job is made that removes its object. As a settled file
is never copied again, the file is reported from then on without its object. -/
theorem removal_hits_kept_file :
    ∃ (now : Timestamp) (pool : Pool.State SyncJob (Except StorageError Unit) SyncError)
      (job : SyncJob) (source : QualifiedName) (kept : FileRecord),
      Pool.Reachable (default : Policy).sizing
        (.initial ((default : Policy).removal sharedDocument now []).produce false) pool ∧
      job ∈ pool.floor.accepted ∧
      (sharedDocument.reconcile now []).target.files.Records sharedDocument.ns source kept ∧
      kept.phase = .succeeded ∧
      job.destination =
        ((default : Policy).removal sharedDocument now []).destination kept.path := by
  obtain ⟨pool, job, reachable, accepted, hit⟩ :=
    sharedDocument_accepted "2024-05-01T00:00:00+00:00"
  exact ⟨_, pool, job, _, _, reachable, accepted, sharedDocument_target, rfl, hit⟩

/-- The two files of the shared document clash: they have one path under different sources, and one
of them is not declared. -/
theorem removal_clash_of_sharedDocument :
    ∃ source' gone, sharedDocument.Clash [] ⟨"team-a", "y"⟩ (.blank "a.txt" .succeeded)
      source' gone := by
  obtain ⟨pool, job, reachable, accepted, hit⟩ :=
    sharedDocument_accepted "2024-05-01T00:00:00+00:00"
  exact removal_hits_kept_only_on_clash reachable accepted sharedDocument_target rfl hit

end Policy

end DatasetSync
