/-!
# The floor of a worker pool

Jobs pass over the floor in five stations: they wait in a queue of limited length, they run,
they wait for their completion to be handed over, and they are handed over; or they are
dropped from the queue because the work is stopped. Each move takes one job from one station
to the next. Whether a move may be made depends on the limits and is said beside it.
-/

namespace DatasetSync.Pool

/-- The limits of a pool. A limit of zero counts as one. -/
structure Sizing where
  /-- How many jobs run at once at most. -/
  workers : Nat
  /-- How many jobs wait in the queue at most. -/
  capacity : Nat
deriving DecidableEq, Repr

namespace Sizing

/-- Five workers, and room for five jobs. -/
def standard : Sizing := ⟨5, 5⟩

instance : Inhabited Sizing := ⟨standard⟩

/-- How many workers there are. -/
def crew (sizing : Sizing) : Nat := max sizing.workers 1

/-- How many jobs the queue takes. -/
def room (sizing : Sizing) : Nat := max sizing.capacity 1

end Sizing

/-- Where the jobs of a run are. Every list is in order of arrival. -/
structure Floor (J R : Type) where
  /-- All jobs that were ever queued. -/
  accepted : List J
  queue : List J
  running : List J
  /-- Finished jobs whose completion has not been handed over. -/
  awaiting : List (J × R)
  /-- Jobs whose completion has been handed over. -/
  delivered : List (J × R)
  /-- Jobs that never ran, because the work was stopped. -/
  dropped : List J
  /-- The most jobs that ever ran at once. -/
  peak : Nat
deriving DecidableEq, Repr

namespace Floor

variable {J R : Type}

/-- A floor without jobs. -/
def empty : Floor J R := ⟨[], [], [], [], [], [], 0⟩

instance : Inhabited (Floor J R) := ⟨empty⟩

/-- Whether the queue takes one more job. -/
def hasRoom (sizing : Sizing) (floor : Floor J R) : Bool := floor.queue.length < sizing.room

/-- Whether a worker is idle. -/
def hasIdle (sizing : Sizing) (floor : Floor J R) : Bool := floor.running.length < sizing.crew

/-- Whether no job is left that has to move. -/
def isQuiet (floor : Floor J R) : Bool :=
  floor.queue.isEmpty && floor.running.isEmpty && floor.awaiting.isEmpty

/-- A new job joins the queue; the queue has room. -/
def enqueue (floor : Floor J R) (job : J) : Floor J R :=
  { floor with accepted := floor.accepted ++ [job], queue := floor.queue ++ [job] }

/-- The first job of the queue starts to run; a worker is idle. -/
def start (floor : Floor J R) : Floor J R :=
  match floor.queue with
  | [] => floor
  | job :: queue =>
    let running := floor.running ++ [job]
    { floor with queue, running, peak := max floor.peak running.length }

/-- A running job ends. -/
def finish (floor : Floor J R) (position : Nat) (result : R) : Floor J R :=
  match floor.running[position]? with
  | none => floor
  | some job =>
    { floor with
      running := floor.running.eraseIdx position
      awaiting := floor.awaiting ++ [(job, result)] }

/-- The first completion is handed over. -/
def deliver (floor : Floor J R) : Floor J R :=
  match floor.awaiting with
  | [] => floor
  | completion :: awaiting =>
    { floor with awaiting, delivered := floor.delivered ++ [completion] }

/-- The queue is dropped; the work is stopped. -/
def discard (floor : Floor J R) : Floor J R :=
  { floor with queue := [], dropped := floor.dropped ++ floor.queue }

/-- Up to a number of jobs start, as long as workers are idle. -/
def startUpTo (sizing : Sizing) : Nat → Floor J R → Floor J R
  | 0, floor => floor
  | count + 1, floor =>
    if floor.hasIdle sizing && !floor.queue.isEmpty then startUpTo sizing count floor.start
    else floor

/-- As many jobs start as there are idle workers. -/
def startAll (sizing : Sizing) (floor : Floor J R) : Floor J R :=
  startUpTo sizing floor.queue.length floor

end Floor

end DatasetSync.Pool
