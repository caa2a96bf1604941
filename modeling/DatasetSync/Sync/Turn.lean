import DatasetSync.Sync.Step

/-!
# Runs that take turns

Runs that are under way at the same time are not carried out one after the other: they take
turns. In its own turn the producer of a run goes on until it is done or has to wait for
room in the queue. In the turn of its workers the jobs that wait in the queue are carried
out, the oldest first, and their completions are handed over at once.

A turn leaves the run as it stands, so that others can act upon the surroundings before its
next turn. A run can also be carried on from where it stands to its end without a further
interruption.
-/

namespace DatasetSync

namespace Pool

variable {σ J R E : Type}

/-- The producer goes on until it is done or has to wait for room. -/
def advance (host : Host σ J R) (sizing : Sizing) :
    Producer J E → Session σ J R → Producer J E × Session σ J R
  | .done result, session => (.done result, session)
  | .ask (.call call) next, session =>
    let (answer, surroundings) := host.answer call session.surroundings
    advance host sizing (next answer) (Session.observe host { session with surroundings })
  | .ask .isStopping next, session => advance host sizing (next session.cancelled) session
  | .ask (.queue job) next, session =>
    if session.cancelled then advance host sizing (next false) session
    else if session.floor.hasRoom sizing then
      advance host sizing (next true) { session with floor := session.floor.enqueue job }
    else (.ask (.queue job) next, session)

end Pool

variable {σ : Type}

/-- A run whose pool is being driven, and its surroundings. -/
def SyncPlan.driven (plan : SyncPlan) (producer : Pool.Producer SyncJob SyncError)
    (session : Pool.Session (σ × FileTree) SyncJob (Except StorageError Unit)) : ActiveRun × σ :=
  (⟨plan, session.surroundings.2, .working ⟨producer, session.floor, session.cancelled⟩⟩,
    session.surroundings.1)

namespace ActiveRun

variable (surroundings : Surroundings σ) (run : ActiveRun) (state : σ)

/-- The run's own turn: its producer goes on as far as it can. -/
def advance : ActiveRun × σ :=
  match run.stage with
  | .concluding _ => (run, state)
  | .working pool =>
    let (producer, session) :=
      Pool.advance (run.plan.host surroundings) run.plan.sizing pool.producer
        ⟨pool.floor, pool.cancelled, state, run.tree⟩
    run.plan.driven producer session

/-- The turn of the workers: they carry out what waits in the queue, or drop it if the work
    is to stop. -/
def work : ActiveRun × σ :=
  match run.stage with
  | .concluding _ => (run, state)
  | .working pool =>
    let host := run.plan.host surroundings
    let session : Pool.Session _ _ _ := ⟨pool.floor, pool.cancelled, state, run.tree⟩
    run.plan.driven pool.producer
      (if pool.isStopping then session.abandon host else session.complete host run.plan.sizing)

/-- Whether the pool of the run has come to its end, so that only the last calls are left. -/
def hasWorked : Bool :=
  match run.stage with
  | .concluding _ => true
  | .working pool => pool.ended?.isSome

/-- The run is carried on to its end. -/
def finish : Except SyncError RunOutcome × σ :=
  match run.stage with
  | .concluding rest => Calling.perform surroundings.answer rest state
  | .working pool =>
    let (produced, session) :=
      Pool.drive (run.plan.host surroundings) run.plan.sizing pool.producer
        ⟨pool.floor, pool.cancelled, state, run.tree⟩
    let (outside, tree) := session.surroundings
    Calling.perform surroundings.answer (run.plan.conclude tree produced session.cancelled) outside

end ActiveRun

end DatasetSync
