import DatasetSync.FileTree.Readiness
import DatasetSync.FileTree.Transition
import DatasetSync.Pool.Drive
import DatasetSync.Sync.Job

/-!
# Sync runs

A run carries out a plan. Its jobs go through a worker pool, and the completion of each copy
moves one file in the run's own copy of the file tree. When all is done the run reads the
document again and commits: it writes the tree and a report on readiness, unless somebody
else has changed the document since the plan was made. A removal writes nothing. A document
that has been marked deleted meanwhile loses its finalizers instead.

A run that is cancelled commits nothing.
-/

namespace DatasetSync

/-- How a run ends. -/
inductive RunOutcome where
  /-- The status was written; it reports readiness or not. -/
  | committed (ready : Bool)
  /-- The stored status was already the right one. -/
  | unchanged
  /-- The document has moved on, and the results were given up. -/
  | superseded
  /-- The document was being deleted, and its finalizers were cleared. -/
  | finalized
  /-- A removal came to its end. -/
  | removed
  /-- The document is no longer there. -/
  | gone
  /-- The run was stopped before its end. -/
  | cancelled
deriving DecidableEq, Repr

namespace SyncPlan

/-- The tree of a run after the completion of one job. A removal changes nothing, and
    neither does a copy whose file cannot be found or must not move. -/
def record (tree : FileTree) (dataset : String) (now : Timestamp) (job : SyncJob)
    (result : Except StorageError Unit) : FileTree :=
  if job.removes then tree
  else
    let advanced :=
      match result with
      | .ok () => tree.advance now job.owner (job.logicalPath dataset) .succeeded ""
      | .error error => tree.advance now job.owner (job.logicalPath dataset) .failed error.message
    match advanced with
    | .ok advanced => advanced
    | .error _ => tree

/-- The status that a run makes of the stored one. -/
def commitStatus (stored : Option Status) (tree : FileTree) (now : Timestamp) : Status :=
  Status.setCondition { stored.getD .initial with files := tree } (FileTree.summary now tree)

/-- Clear the finalizers of a document that is being deleted. A document that has gone by
    itself is as good. -/
def release (latest : Document) : Calling (Except SyncError RunOutcome) := do
  let cleared := { latest with metadata := { latest.metadata with finalizers := none } }
  match ← Call.updateDocument cleared with
  | .ok _ => return .ok .finalized
  | .error (.notFound _) => return .ok .finalized
  | .error error => return .error (.store error)

/-- Write the status of a run over the stored one, unless nothing would change. -/
def writeStatus (key : QualifiedName) (token : String) (stored : Option Status)
    (tree : FileTree) : Calling (Except SyncError RunOutcome) := do
  let status := commitStatus stored tree (← Call.readClock)
  if stored = some status then return .ok .unchanged
  else
    match ← Call.patchStatus key token status with
    | .ok () => return .ok (.committed (status.ready?.any Condition.holds))
    | .error (.conflict _) => return .ok .superseded
    | .error (.notFound _) => return .ok .gone
    | .error error => return .error (.store error)

/-- Commit the tree of a run that has come to its end. -/
def commit (plan : SyncPlan) (tree : FileTree) : Calling (Except SyncError RunOutcome) := do
  match ← Call.getDocument plan.document.key with
  | .error error => return .error (.store error)
  | .ok none => return .ok .gone
  | .ok (some latest) =>
    if latest.isDeleting then release latest
    else if plan.mode = .remove then return .ok .removed
    else
      match plan.document.versionToken with
      | none => return .error (.missingVersionToken plan.document.key)
      | some token =>
        if latest.versionToken ≠ some token then return .ok .superseded
        else writeStatus plan.document.key token latest.status tree

/-- The end of a run whose pool has come to its end. -/
def conclude (plan : SyncPlan) (tree : FileTree) (produced : Except SyncError Unit)
    (cancelled : Bool) : Calling (Except SyncError RunOutcome) :=
  match produced with
  | .error error => return .error error
  | .ok () => if cancelled then return .ok .cancelled else plan.commit tree

end SyncPlan

/-- The surroundings of a run that is carried out from start to end. -/
structure Surroundings (σ : Type) where
  /-- Answer a call. -/
  answer : (call : Call) → σ → call.Answer × σ
  /-- Whether the run has been cancelled from outside. -/
  isCancelled : σ → Bool

namespace SyncPlan

variable {σ : Type}

/-- The pool of a run works on the surroundings and on the file tree of the run. -/
def host (plan : SyncPlan) (surroundings : Surroundings σ) :
    Pool.Host (σ × FileTree) SyncJob (Except StorageError Unit) where
  answer call state :=
    let (answer, outside) := surroundings.answer call state.1
    (answer, outside, state.2)
  execute job state :=
    let (result, outside) := Calling.perform surroundings.answer job.perform state.1
    (result, outside, state.2)
  deliver job result state :=
    let (now, outside) := surroundings.answer .clock state.1
    (outside, record state.2 plan.document.datasetName now job result)
  isCancelled state := surroundings.isCancelled state.1

/-- Carry a plan out from start to end. -/
def drive (plan : SyncPlan) (surroundings : Surroundings σ) (cancelled : Bool) (state : σ) :
    Except SyncError RunOutcome × σ :=
  let (produced, session) :=
    Pool.drive (plan.host surroundings) plan.sizing plan.produce
      { floor := .empty, cancelled, surroundings := (state, plan.document.files) }
  let (outside, tree) := session.surroundings
  Calling.perform surroundings.answer (plan.conclude tree produced session.cancelled) outside

end SyncPlan

end DatasetSync
