import DatasetSync.Controller.Registry
import DatasetSync.FileTree.Diff
import DatasetSync.Lineage
import DatasetSync.Sync.Run

/-!
# Reconciling a document

Whenever a document has changed, the controller looks at it once and takes the next step
that brings files and declaration together. In turn: a document that is being deleted is
cleaned up; labels and the finalizer are put on; a changed set of files is written to the
status, after files that are no longer declared were removed; and if nothing else is left, a
copy run is started in the background.

Each of the writes brings the controller back, so that one look takes one step.
-/

namespace DatasetSync

/-- What the controller asks: calls, and control over runs. -/
inductive Control where
  | call (call : Call)
  /-- Carry out a run and wait for its end. -/
  | sync (plan : SyncPlan)
  /-- Register a run under a key and start it in the background. -/
  | launch (key : String) (plan : SyncPlan)
  /-- Cancel the run of a key. -/
  | stop (key : String)
  /-- Wait until a run has come to its end. -/
  | await (run : RunId)

/-- What the controller is answered. -/
abbrev Control.Answer : Control → Type
  | .call made => made.Answer
  | .sync _ => Except SyncError RunOutcome
  | .launch _ _ => RunId
  | .stop _ => Option RunId
  | .await _ => Unit

/-- The interface of the controller. -/
abbrev Controls : Interface := ⟨Control, Control.Answer⟩

/-- A program that makes calls and controls runs. -/
abbrev Controlling := Program Controls

namespace Controlling

/-- Carry out calls. -/
def calling {α : Type} (program : Calling α) : Controlling α :=
  program.run fun request => Program.request Controls (.call request)

def sync (plan : SyncPlan) : Controlling (Except SyncError RunOutcome) :=
  Program.request Controls (.sync plan)

def launch (key : String) (plan : SyncPlan) : Controlling RunId :=
  Program.request Controls (.launch key plan)

def stop (key : String) : Controlling (Option RunId) :=
  Program.request Controls (.stop key)

def await (run : RunId) : Controlling Unit :=
  Program.request Controls (.await run)

end Controlling

/-- When to look at a document again. -/
inductive Next where
  /-- When it changes. -/
  | awaitChange
  /-- After some seconds, even if it does not change. -/
  | requeue (seconds : Nat)
deriving DecidableEq, Repr

/-- Why a document could not be reconciled. -/
inductive ReconcileError where
  | store (error : StoreError)
  | storage (error : StorageError)
  | sync (error : SyncError)
  /-- The document has no namespace or no version token. -/
  | missingObjectKey
deriving DecidableEq, Repr

def ReconcileError.message : ReconcileError → String
  | store error => "Status store error: " ++ error.message
  | storage error => "Object storage error: " ++ error.message
  | sync error => "Sync run error: " ++ error.message
  | missingObjectKey => "Missing object key"

namespace Document

/-- The mark of the controller on a document that has objects to clean up. -/
def finalizer : String := "arcadia.kubeagi.k8s.com.cn/finalizer"

/-- The label that repeats the version. -/
def versionLabel : String := "arcadia.kubeagi.k8s.com.cn/version"

/-- The label that repeats the name of the dataset. -/
def ownerLabel : String := "arcadia.kubeagi.k8s.com.cn/owner"

/-- The labels of a document; none if the field is missing. -/
def labels (document : Document) : Labels := document.metadata.labels.getD .empty

/-- Whether labels and finalizer are in place. -/
def isMarked (document : Document) : Bool :=
  document.labels.get? versionLabel = some document.spec.version
    && document.labels.get? ownerLabel = some document.datasetName
    && document.finalizers.contains finalizer

/-- The document with labels and finalizer in place; nothing if nothing is missing. -/
def marked? (document : Document) : Option Document :=
  if document.isMarked then none
  else
    let labels := (document.labels.insert versionLabel document.spec.version).insert ownerLabel
      document.datasetName
    let finalizers :=
      if document.finalizers.contains finalizer then document.finalizers
      else document.finalizers ++ [finalizer]
    some { document with
      metadata := { document.metadata with labels := some labels, finalizers := some finalizers } }

/-- The keys of the objects of all files of a tree. -/
def trackedKeys (document : Document) (tree : FileTree) : List String :=
  tree.allFiles.map fun file =>
    Layout.objectKey document.datasetName document.spec.version file.path

end Document

/-- The limits and delays that the controller works by. -/
structure Policy where
  sizing : Pool.Sizing
  /-- After how many seconds to try again. -/
  requeueAfter : Nat
deriving DecidableEq, Repr, Inhabited

namespace Policy

/-- Remove listed objects one after the other. -/
def removeAll (bucket : String) : List String → Calling (Except StorageError Unit)
  | [] => return .ok ()
  | key :: keys => do
    match ← Call.removeObject ⟨bucket, key⟩ with
    | .error error => return .error error
    | .ok () => removeAll bucket keys

/-- Remove the objects of a version that its status does not know. -/
def purgeUntracked (document : Document) (tracked : FileTree) :
    Calling (Except StorageError Unit) := do
  let bucket := document.datasetNs
  match ← Call.bucketExists bucket with
  | .error error => return .error error
  | .ok false => return .ok ()
  | .ok true =>
    let leading := Layout.versionPrefix document.datasetName document.spec.version
    match ← Call.listObjects bucket leading true with
    | .error error => return .error error
    | .ok objects =>
      let keys := objects.map ObjectInfo.key
      let known := document.trackedKeys tracked
      removeAll bucket (keys.filter fun key => !known.contains key)

/-- Clean up a document that is being deleted: stop its run, then remove first the objects
    that its status does not know and then those that it knows. -/
def finalize (policy : Policy) (key : String) (document : Document) :
    Controlling (Except ReconcileError Next) := do
  if !document.finalizers.contains Document.finalizer then return .ok .awaitChange
  if let some run ← Controlling.stop key then Controlling.await run
  let deleted := document.reconcileDeleted.deleted
  match ← Controlling.calling (purgeUntracked document deleted) with
  | .error error => return .error (.storage error)
  | .ok () =>
    match ← Controlling.sync (.removing document deleted policy.sizing) with
    | .error error => return .error (.sync error)
    | .ok _ => return .ok .awaitChange

/-- Put labels and finalizer on. A write that comes too late is as good: the change that
    came before it brings the controller back. -/
def mark (marked : Document) : Calling (Except ReconcileError Next) := do
  match ← Call.updateDocument marked with
  | .ok _ => return .ok .awaitChange
  | .error (.conflict _) => return .ok .awaitChange
  | .error (.notFound _) => return .ok .awaitChange
  | .error error => return .error (.store error)

/-- Write a changed set of files. A write that comes too late is as good. -/
def writeTarget (document : Document) (target : Status) :
    Calling (Except ReconcileError Next) := do
  match document.versionToken with
  | none => return .error .missingObjectKey
  | some token =>
    match ← Call.patchStatus document.key token target with
    | .ok () => return .ok .awaitChange
    | .error (.conflict _) => return .ok .awaitChange
    | .error (.notFound _) => return .ok .awaitChange
    | .error error => return .error (.store error)

/-- Bring the status in line with the declaration: remove what is no longer declared, then
    write the target. A removal that fails is tried again later. -/
def applyOutcome (policy : Policy) (document : Document) (outcome : Outcome) :
    Controlling (Except ReconcileError Next) := do
  if outcome.deleted.isEmpty then Controlling.calling (writeTarget document outcome.target)
  else
    match ← Controlling.sync (.removing document outcome.deleted policy.sizing) with
    | .error _ => return .ok (.requeue policy.requeueAfter)
    | .ok _ => Controlling.calling (writeTarget document outcome.target)

/-- Compare declaration and status, and take the next step. -/
def advance (policy : Policy) (key : String) (document : Document) :
    Controlling (Except ReconcileError Next) := do
  match ← Controlling.calling document.listLineage with
  | .error error => return .error (.storage error)
  | .ok lineage =>
    let outcome := document.reconcile (← Controlling.calling Call.readClock) lineage
    if outcome.statusChanged || !outcome.deleted.isEmpty then
      policy.applyOutcome document outcome
    else
      let synced := { document with status := some outcome.target }
      let _ ← Controlling.launch key (.copying synced policy.sizing)
      return .ok .awaitChange

/-- Look at a document once. -/
def reconcile (policy : Policy) (document : Document) :
    Controlling (Except ReconcileError Next) := do
  match document.metadata.ns with
  | none => return .error .missingObjectKey
  | some _ =>
    let key := document.key.toString
    if document.isDeleting then policy.finalize key document
    else
      match document.marked? with
      | some marked => Controlling.calling (mark marked)
      | none => policy.advance key document

/-- What to do about a document that could not be reconciled. -/
def afterError (policy : Policy) : Next := .requeue policy.requeueAfter

end Policy

end DatasetSync
