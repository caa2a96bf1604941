import DatasetSync.Pool.Step
import DatasetSync.Sync.Run

/-!
# What a sync run can do

A run is a pool at work upon the surroundings and upon the run's own copy of the file tree;
when the pool has come to its end, the run goes on with the calls that conclude it. Between
two moves of a run others may change the surroundings. `ActiveRun.Step` says which single
moves are possible. That the run is cancelled is no move of its own: it happens to it.
-/

namespace DatasetSync

variable {σ : Type}

/-- The pool of a run. -/
abbrev SyncPool := Pool.State SyncJob (Except StorageError Unit) SyncError

/-- How far a run has come. -/
inductive RunStage where
  /-- Its pool is at work. -/
  | working (pool : SyncPool)
  /-- Its pool has come to its end, and these calls are left. -/
  | concluding (rest : Calling (Except SyncError RunOutcome))

/-- A run that is being carried out. -/
structure ActiveRun where
  plan : SyncPlan
  /-- The run's own copy of the file tree. -/
  tree : FileTree
  stage : RunStage

namespace ActiveRun

/-- A run that is about to start. -/
def start (plan : SyncPlan) (cancelled : Bool) : ActiveRun :=
  ⟨plan, plan.document.files, .working (.initial plan.produce cancelled)⟩

/-- The run after it was cancelled. A run that is being concluded does not look any more. -/
def cancel (run : ActiveRun) : ActiveRun :=
  match run.stage with
  | .working pool => { run with stage := .working { pool with cancelled := true } }
  | .concluding _ => run

/-- How the run has ended, if it has. -/
def outcome? (run : ActiveRun) : Option (Except SyncError RunOutcome) :=
  match run.stage with
  | .concluding (.done outcome) => some outcome
  | _ => none

/-- What a move of the pool has to do with the surroundings and with the tree. -/
inductive Effect (answer : (call : Call) → σ → call.Answer × σ) (plan : SyncPlan) :
    Pool.Event SyncJob (Except StorageError Unit) → σ × FileTree → σ × FileTree → Prop where
  | internal (state : σ) (tree : FileTree) :
      Effect answer plan .internal (state, tree) (state, tree)
  | called (call : Call) (state : σ) (tree : FileTree) :
      Effect answer plan (.called call (answer call state).1) (state, tree)
        ((answer call state).2, tree)
  | executed {job : SyncJob} {result : Except StorageError Unit} {before after : σ}
      (tree : FileTree)
      (performed : Calling.perform answer job.perform before = (result, after)) :
      Effect answer plan (.executed job result) (before, tree) (after, tree)
  | delivered (job : SyncJob) (result : Except StorageError Unit) (state : σ)
      (tree : FileTree) :
      Effect answer plan (.delivered job result) (state, tree)
        ((answer .clock state).2,
          SyncPlan.record tree plan.document.datasetName (answer .clock state).1 job result)

/-- The moves of a run. -/
inductive Step (answer : (call : Call) → σ → call.Answer × σ) :
    ActiveRun × σ → ActiveRun × σ → Prop where
  | work {plan : SyncPlan} {event : Pool.Event SyncJob (Except StorageError Unit)}
      {pool pool' : SyncPool} {tree tree' : FileTree} {state state' : σ}
      (move : Pool.Step plan.sizing pool event pool')
      (effect : Effect answer plan event (state, tree) (state', tree')) :
      Step answer (⟨plan, tree, .working pool⟩, state) (⟨plan, tree', .working pool'⟩, state')
  | conclude {plan : SyncPlan} {pool : SyncPool} {produced : Except SyncError Unit}
      (tree : FileTree) (state : σ) (ended : pool.ended? = some produced) :
      Step answer (⟨plan, tree, .working pool⟩, state)
        (⟨plan, tree, .concluding (plan.conclude tree produced pool.cancelled)⟩, state)
  | call {plan : SyncPlan} (call : Call)
      (next : call.Answer → Calling (Except SyncError RunOutcome)) (tree : FileTree)
      (state : σ) :
      Step answer (⟨plan, tree, .concluding (.ask call next)⟩, state)
        (⟨plan, tree, .concluding (next (answer call state).1)⟩, (answer call state).2)

end ActiveRun

end DatasetSync
