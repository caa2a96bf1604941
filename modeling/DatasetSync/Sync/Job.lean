import DatasetSync.Layout
import DatasetSync.Pool.Floor
import DatasetSync.Pool.Production

/-!
# The jobs of a sync

A sync goes through the groups of a file tree. When it copies, every file that is being
processed is one job, from the bucket of its source to the key of the version. When it
removes, every file is one job. A path that ends in a slash names no object and is left out.

Jobs are produced in stored order. Before the first job the destination bucket is made if it
is not there.
-/

namespace DatasetSync

/-- What a sync does with the files of its groups. -/
inductive SyncMode where
  | copy
  | remove
deriving DecidableEq, Repr

/-- Why a sync fails as a whole. -/
inductive SyncError where
  | storage (error : StorageError)
  | store (error : StoreError)
  /-- The document that the sync was made for had no version token. -/
  | missingVersionToken (key : QualifiedName)
deriving DecidableEq, Repr

def SyncError.message : SyncError → String
  | storage error => error.message
  | store error => error.message
  | missingVersionToken key => key.toString ++ " has no resourceVersion"

/-- What a sync is to do. -/
structure SyncPlan where
  mode : SyncMode
  /-- The document as it was when the sync was planned. -/
  document : Document
  /-- The files to copy or to remove. -/
  groups : FileTree
  sizing : Pool.Sizing
deriving DecidableEq, Repr

/-- The copy or the removal of one object. -/
structure SyncJob where
  /-- What is copied; a removal has no source. -/
  source : Option ObjectAddress
  destination : ObjectAddress
  /-- The source that the file is listed under. -/
  owner : QualifiedName
deriving DecidableEq, Repr, Inhabited

namespace SyncJob

/-- Whether the job removes an object. -/
def removes (job : SyncJob) : Bool := job.source.isNone

/-- The bucket that is copied from; empty for a removal. -/
def sourceBucket (job : SyncJob) : String := (job.source.map ObjectAddress.bucket).getD ""

/-- The key that is copied from; empty for a removal. -/
def sourceKey (job : SyncJob) : String := (job.source.map ObjectAddress.key).getD ""

/-- The path under which the file of a copy is listed: its source key, without the prefix
    of the parent version if it is inherited. -/
def logicalPath (dataset : String) (job : SyncJob) : String :=
  match Layout.lineageParent? job.owner.name with
  | some parent =>
    (Text.stripPrefix? (Layout.versionPrefix dataset parent) job.sourceKey).getD job.sourceKey
  | none => job.sourceKey

/-- The one call that carries the job out. -/
def perform (job : SyncJob) : Calling (Except StorageError Unit) :=
  match job.source with
  | some source => Call.copyObject job.destination source
  | none => Call.removeObject job.destination

end SyncJob

namespace SyncPlan

/-- Copy the files of a document that are being processed. -/
def copying (document : Document) (sizing : Pool.Sizing) : SyncPlan :=
  { mode := .copy, document, groups := document.files, sizing }

/-- Remove files of a document. -/
def removing (document : Document) (deleted : FileTree) (sizing : Pool.Sizing) : SyncPlan :=
  { mode := .remove, document, groups := deleted, sizing }

/-- The destination bucket. -/
def bucket (plan : SyncPlan) : String := plan.document.datasetNs

/-- The place of a path among the objects of the version. -/
def destination (plan : SyncPlan) (path : String) : ObjectAddress :=
  ⟨plan.bucket, Layout.objectKey plan.document.datasetName plan.document.spec.version path⟩

/-- Where the files of a group are copied from: a bucket and what their keys start with. -/
structure Location where
  bucket : String
  leading : String
deriving DecidableEq, Repr

/-- The place of inherited files: the version that their source names, among the objects of
    the same dataset. -/
def inheritedLocation (plan : SyncPlan) (source : Reference) : Location :=
  let parent := (Layout.lineageParent? source.name).getD source.name
  ⟨plan.bucket, Layout.versionPrefix plan.document.datasetName parent⟩

/-- The job of one file, given where the files of its group come from; there is no location
    when files are removed. -/
def jobFor? (plan : SyncPlan) (location : Option Location) (source : Reference)
    (file : FileRecord) : Option SyncJob :=
  if plan.mode = .copy && file.phase ≠ .processing then none
  else if Text.endsWith '/' file.path then none
  else
    some {
      source := location.map fun place => ⟨place.bucket, place.leading ++ file.path⟩
      destination := plan.destination file.path
      owner := ⟨source.ns.getD "", source.name⟩ }

/-- Find where the files of a group are copied from. -/
def locate (plan : SyncPlan) (source : Reference) : Calling (Except SyncError Location) := do
  if source.kind = Reference.versionedDatasetKind then
    return .ok (plan.inheritedLocation source)
  match ← Call.resolveBucket source plan.document.ns with
  | .ok bucket => return .ok ⟨bucket, ""⟩
  | .error error => return .error (.store error)

/-- Make the destination bucket if it is not there. -/
def ensureBucket (plan : SyncPlan) : Calling (Except SyncError Unit) := do
  match ← Call.bucketExists plan.bucket with
  | .error error => return .error (.storage error)
  | .ok true => return .ok ()
  | .ok false =>
    match ← Call.makeBucket plan.bucket with
    | .error error => return .error (.storage error)
    | .ok () => return .ok ()

/-- Find where the files of a group are copied from; files that are removed come from
    nowhere. -/
def locate? (plan : SyncPlan) (source : Reference) :
    Calling (Except SyncError (Option Location)) := do
  match plan.mode with
  | .remove => return .ok none
  | .copy => return (← plan.locate source).map some

/-- What has to be known before the jobs of a group can be made: where its files come from,
    and for the first group that there is a bucket for them. -/
def prepare (plan : SyncPlan) (source : Reference) (bucketChecked : Bool) :
    Calling (Except SyncError (Option Location)) := do
  match ← plan.locate? source with
  | .error error => return .error error
  | .ok location =>
    if bucketChecked then return .ok location
    else return (← plan.ensureBucket).map fun () => location

/-- Hand over the jobs of the files of a group; the answer tells whether to go on. -/
def produceFiles (plan : SyncPlan) (location : Option Location) (source : Reference) :
    List FileRecord → Pool.Producing SyncJob Bool
  | [] => return true
  | file :: files => do
    if ← Pool.Producing.isStopping then return false
    match plan.jobFor? location source file with
    | none => plan.produceFiles location source files
    | some job =>
      if ← Pool.Producing.queue job then plan.produceFiles location source files
      else return false

/-- Hand over the jobs of groups. -/
def produceGroups (plan : SyncPlan) :
    FileTree → Bool → Pool.Producing SyncJob (Except SyncError Unit)
  | [], _ => return .ok ()
  | group :: groups, bucketChecked => do
    if ← Pool.Producing.isStopping then return .ok ()
    match ← Pool.Producing.calling (plan.prepare group.source bucketChecked) with
    | .error error => return .error error
    | .ok location =>
      if ← plan.produceFiles location group.source group.files then
        plan.produceGroups groups true
      else return .ok ()

/-- The producer of all jobs of a plan. -/
def produce (plan : SyncPlan) : Pool.Producer SyncJob SyncError :=
  plan.produceGroups plan.groups false

end SyncPlan

end DatasetSync
