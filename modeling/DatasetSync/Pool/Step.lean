import DatasetSync.Pool.Floor
import DatasetSync.Pool.Production

/-!
# What a worker pool can do

A pool consists of one producer, a floor, and the sign that the work was cancelled. `Step`
says which single moves are possible: the producer, the workers and the one who receives the
completions move in any order, and the work may be cancelled at any time. A move that
concerns the surroundings carries what happened there, so that pools can be put side by side
over common surroundings.
-/

namespace DatasetSync.Pool

variable {J R E : Type}

/-- A pool at work. -/
structure State (J R E : Type) where
  producer : Producer J E
  floor : Floor J R
  cancelled : Bool

namespace State

/-- A pool that is about to start. -/
def initial (producer : Producer J E) (cancelled : Bool) : State J R E :=
  ⟨producer, .empty, cancelled⟩

/-- The end of the producer, if it has ended. -/
def produced? (state : State J R E) : Option (Except E Unit) :=
  match state.producer with
  | .done result => some result
  | .ask _ _ => none

/-- Whether the work is to stop: it was cancelled, or the producer has given up. -/
def isStopping (state : State J R E) : Bool :=
  state.cancelled ||
    match state.produced? with
    | some (.error _) => true
    | _ => false

/-- The end of the pool, if it has ended: nothing is left to produce or to move. -/
def ended? (state : State J R E) : Option (Except E Unit) :=
  if state.floor.isQuiet then state.produced? else none

end State

/-- What a move has to do with the surroundings of a pool. -/
inductive Event (J R : Type) where
  /-- Nothing. -/
  | internal
  /-- The producer made a call and was answered. -/
  | called (call : Call) (answer : call.Answer)
  /-- A job was carried out. -/
  | executed (job : J) (result : R)
  /-- A completion was handed over. -/
  | delivered (job : J) (result : R)
  /-- The work was cancelled from outside. -/
  | cancelled

/-- The moves of a pool. -/
inductive Step (sizing : Sizing) : State J R E → Event J R → State J R E → Prop where
  | call {floor cancelled} (call : Call) (next : call.Answer → Producer J E)
      (answer : call.Answer) :
      Step sizing ⟨.ask (.call call) next, floor, cancelled⟩ (.called call answer)
        ⟨next answer, floor, cancelled⟩
  | observe {floor cancelled} (next : Bool → Producer J E) :
      Step sizing ⟨.ask .isStopping next, floor, cancelled⟩ .internal
        ⟨next cancelled, floor, cancelled⟩
  | enqueue {floor} (job : J) (next : Bool → Producer J E) (room : floor.hasRoom sizing) :
      Step sizing ⟨.ask (.queue job) next, floor, false⟩ .internal
        ⟨next true, floor.enqueue job, false⟩
  | refuse {floor} (job : J) (next : Bool → Producer J E) :
      Step sizing ⟨.ask (.queue job) next, floor, true⟩ .internal ⟨next false, floor, true⟩
  | start {state : State J R E} (going : state.isStopping = false)
      (idle : state.floor.hasIdle sizing) (waiting : state.floor.queue ≠ []) :
      Step sizing state .internal { state with floor := state.floor.start }
  | finish {state : State J R E} (position : Nat) (job : J) (result : R)
      (running : state.floor.running[position]? = some job) :
      Step sizing state (.executed job result)
        { state with floor := state.floor.finish position result }
  | deliver {state : State J R E} (job : J) (result : R) (rest : List (J × R))
      (first : state.floor.awaiting = (job, result) :: rest) :
      Step sizing state (.delivered job result) { state with floor := state.floor.deliver }
  | discard {state : State J R E} (stopping : state.isStopping = true) :
      Step sizing state .internal { state with floor := state.floor.discard }
  | cancel {state : State J R E} :
      Step sizing state .cancelled { state with cancelled := true }

/-- The states that a pool can reach, whatever the surroundings answer. -/
inductive Reachable (sizing : Sizing) (start : State J R E) : State J R E → Prop where
  | start : Reachable sizing start start
  | step {before after : State J R E} {event : Event J R} :
      Reachable sizing start before → Step sizing before event after →
      Reachable sizing start after

end DatasetSync.Pool
