import DatasetSync.Pool.Floor
import DatasetSync.Pool.Production

/-!
# Driving a worker pool

Of the many orders in which the moves of a pool can be made, one is fixed here: the producer
goes on as long as it can; when the queue is full, or nothing is left to produce, idle
workers take jobs from it; and a job ends only when nothing else can move, the oldest first.
Its completion is handed over at once. All moves are those of the floor.
-/

namespace DatasetSync.Pool

variable {σ J R E : Type}

/-- The surroundings of a pool, with states `σ`. -/
structure Host (σ J R : Type) where
  /-- Answer a call of the producer. -/
  answer : (call : Call) → σ → call.Answer × σ
  /-- Carry out a job. -/
  execute : J → σ → R × σ
  /-- Receive a completion. -/
  deliver : J → R → σ → σ
  /-- Whether the work has been cancelled from outside. -/
  isCancelled : σ → Bool

/-- A pool that is being driven. -/
structure Session (σ J R : Type) where
  floor : Floor J R
  cancelled : Bool
  surroundings : σ

namespace Session

/-- Notice whether the work has been cancelled. -/
def observe (host : Host σ J R) (session : Session σ J R) : Session σ J R :=
  { session with cancelled := session.cancelled || host.isCancelled session.surroundings }

/-- Idle workers take jobs, unless the work was cancelled. -/
def fill (sizing : Sizing) (session : Session σ J R) : Session σ J R :=
  if session.cancelled then session
  else { session with floor := session.floor.startAll sizing }

/-- The oldest running job ends and its completion is handed over. -/
def finishOldest (host : Host σ J R) (session : Session σ J R) : Session σ J R :=
  match session.floor.running with
  | [] => session
  | job :: _ =>
    let (result, surroundings) := host.execute job session.surroundings
    let ended := { session with floor := session.floor.finish 0 result, surroundings }
    let handed := { ended with
      floor := ended.floor.deliver
      surroundings := host.deliver job result ended.surroundings }
    handed.observe host

/-- Workers make room in a full queue. -/
def makeRoom (host : Host σ J R) (sizing : Sizing) (session : Session σ J R) : Session σ J R :=
  if session.cancelled || session.floor.hasRoom sizing then session
  else
    let filled := session.fill sizing
    if filled.floor.hasRoom sizing then filled else (filled.finishOldest host).fill sizing

/-- A number of jobs end, each followed by the start of another one. -/
def work (host : Host σ J R) (sizing : Sizing) : Nat → Session σ J R → Session σ J R
  | 0, session => session
  | count + 1, session => work host sizing count ((session.fill sizing).finishOldest host)

/-- A number of jobs end and no other one starts. -/
def runOut (host : Host σ J R) : Nat → Session σ J R → Session σ J R
  | 0, session => session
  | count + 1, session => runOut host count (session.finishOldest host)

/-- All jobs end; if the work is cancelled on the way, the queue is dropped. -/
def complete (host : Host σ J R) (sizing : Sizing) (session : Session σ J R) : Session σ J R :=
  let count := session.floor.queue.length + session.floor.running.length
  let worked := session.work host sizing count
  { worked with floor := worked.floor.discard }

/-- The running jobs end and the queue is dropped. -/
def abandon (host : Host σ J R) (session : Session σ J R) : Session σ J R :=
  let ended := session.runOut host session.floor.running.length
  { ended with floor := ended.floor.discard }

end Session

/-- Drive a pool to its end. -/
def drive (host : Host σ J R) (sizing : Sizing) :
    Producer J E → Session σ J R → Except E Unit × Session σ J R
  | .done (.error error), session => (.error error, session.abandon host)
  | .done (.ok ()), session => (.ok (), session.complete host sizing)
  | .ask (.call call) next, session =>
    let (answer, surroundings) := host.answer call session.surroundings
    drive host sizing (next answer) (Session.observe host { session with surroundings })
  | .ask .isStopping next, session => drive host sizing (next session.cancelled) session
  | .ask (.queue job) next, session =>
    let ready := session.makeRoom host sizing
    if ready.cancelled then drive host sizing (next false) ready
    else drive host sizing (next true) { ready with floor := ready.floor.enqueue job }

end DatasetSync.Pool
