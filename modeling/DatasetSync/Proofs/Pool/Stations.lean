import Mathlib.Data.List.Perm.Basic
import DatasetSync.Pool.Step
import DatasetSync.Proofs.Sync.Handover

/-!
# Jobs pass over the floor

No job is lost on the floor and none is doubled: the jobs that were ever accepted are those
in the five stations. A job is dropped only when the work is to stop. A pool that ends well
without having been cancelled has therefore carried out every job that its producer owed when
it began.
-/

namespace DatasetSync.Pool

variable {J R E : Type}

namespace Floor

/-- The jobs in the five stations. -/
def stations (floor : Floor J R) : List J :=
  floor.queue ++ floor.running ++ floor.awaiting.map Prod.fst ++ floor.delivered.map Prod.fst
    ++ floor.dropped

/-- The accepted jobs are those in the stations, each as often as it was accepted. -/
def Conserved (floor : Floor J R) : Prop := floor.accepted.Perm floor.stations

/-- The jobs that were carried out, with their results. -/
def executed (floor : Floor J R) : List (J × R) := floor.delivered ++ floor.awaiting

/-- To begin a job accepts none. -/
@[simp] theorem accepted_start (floor : Floor J R) : floor.start.accepted = floor.accepted := by
  unfold Floor.start
  split <;> rfl

/-- To begin a job drops none. -/
@[simp] theorem dropped_start (floor : Floor J R) : floor.start.dropped = floor.dropped := by
  unfold Floor.start
  split <;> rfl

/-- To end a job accepts none. -/
@[simp] theorem accepted_finish (floor : Floor J R) (position : Nat) (result : R) :
    (floor.finish position result).accepted = floor.accepted := by
  unfold Floor.finish
  split <;> rfl

/-- To end a job drops none. -/
@[simp] theorem dropped_finish (floor : Floor J R) (position : Nat) (result : R) :
    (floor.finish position result).dropped = floor.dropped := by
  unfold Floor.finish
  split <;> rfl

/-- To hand a completion over accepts no job. -/
@[simp] theorem accepted_deliver (floor : Floor J R) :
    floor.deliver.accepted = floor.accepted := by
  unfold Floor.deliver
  split <;> rfl

/-- To hand a completion over drops no job. -/
@[simp] theorem dropped_deliver (floor : Floor J R) :
    floor.deliver.dropped = floor.dropped := by
  unfold Floor.deliver
  split <;> rfl

/-- On an empty floor no job is lost: none was accepted. -/
theorem conserved_empty : (empty : Floor J R).Conserved := .refl _

/-- To queue a job loses none. The new one is both accepted and in the queue. -/
theorem Conserved.enqueue {floor : Floor J R} (conserved : floor.Conserved) (job : J) :
    (floor.enqueue job).Conserved := by
  classical
  refine List.perm_iff_count.mpr fun other => ?_
  have counted := List.perm_iff_count.mp conserved other
  simp only [stations, Floor.enqueue, List.count_append] at counted ⊢
  omega

/-- To begin a job loses none: it goes from the queue to the workers. -/
theorem Conserved.start {floor : Floor J R} (conserved : floor.Conserved) :
    floor.start.Conserved := by
  classical
  unfold Floor.start
  split
  · exact conserved
  · rename_i job queue waiting
    refine List.perm_iff_count.mpr fun other => ?_
    have counted := List.perm_iff_count.mp conserved other
    simp only [stations, waiting, List.count_append, List.count_cons, List.count_nil] at counted ⊢
    omega

/-- To end a job loses none: it goes from the workers to the completions that await their delivery,
wherever among the workers it stands. -/
theorem Conserved.finish {floor : Floor J R} (conserved : floor.Conserved) (position : Nat)
    (result : R) : (floor.finish position result).Conserved := by
  classical
  unfold Floor.finish
  split
  · exact conserved
  · rename_i job found
    obtain ⟨bound, rfl⟩ := List.getElem?_eq_some_iff.mp found
    refine List.perm_iff_count.mpr fun other => ?_
    have counted := List.perm_iff_count.mp conserved other
    have erased := List.perm_iff_count.mp (List.getElem_cons_eraseIdx_perm bound) other
    simp only [stations, List.count_append, List.count_cons, List.map_append, List.map_cons,
      List.map_nil, List.count_nil] at counted erased ⊢
    omega

/-- To hand a completion over loses no job: it goes from those that await their delivery to those
that were delivered. -/
theorem Conserved.deliver {floor : Floor J R} (conserved : floor.Conserved) :
    floor.deliver.Conserved := by
  classical
  unfold Floor.deliver
  split
  · exact conserved
  · rename_i completion awaiting first
    refine List.perm_iff_count.mpr fun other => ?_
    have counted := List.perm_iff_count.mp conserved other
    simp only [stations, first, List.count_append, List.map_append, List.map_cons,
      List.map_nil, List.count_cons, List.count_nil] at counted ⊢
    omega

/-- To empty the queue loses no job: what was queued is dropped, and dropped jobs are counted. -/
theorem Conserved.discard {floor : Floor J R} (conserved : floor.Conserved) :
    floor.discard.Conserved := by
  classical
  refine List.perm_iff_count.mpr fun other => ?_
  have counted := List.perm_iff_count.mp conserved other
  simp only [stations, Floor.discard, List.count_append, List.count_nil] at counted ⊢
  omega

end Floor

/-- A pool accepts only jobs of the kind that its producer hands over. The producer keeps to this
kind on its whole way, which the induction carries along. -/
theorem Reachable.accepted {sizing : Sizing} {allowed : J → Prop} {producer : Producer J E}
    {cancelled : Bool} {state : State J R E}
    (reachable : Reachable sizing (.initial producer cancelled) state)
    (within : producer.AsksOnly (Production.Within allowed)) :
    state.producer.AsksOnly (Production.Within allowed) ∧
      ∀ job ∈ state.floor.accepted, allowed job := by
  induction reachable with
  | start => exact ⟨within, by simp [State.initial, Floor.empty]⟩
  | step earlier move ih =>
    obtain ⟨asks, accepted⟩ := ih
    refine ⟨move.producer_asks asks, ?_⟩
    cases move with
    | enqueue job next room =>
      intro other member
      rcases List.mem_append.mp member with former | new
      · exact accepted other former
      · exact List.mem_singleton.mp new ▸ asks.1
    | start => simpa using accepted
    | finish => simpa using accepted
    | deliver => simpa using accepted
    | call | observe | refuse | discard | cancel => exact accepted

/-- A pool of which the producer owed given jobs when it began: no job is lost, none but the
owed ones is accepted, and while the work goes on, none was dropped and the jobs not yet
accepted are still owed. -/
structure State.Faithful (all : List J) (state : State J R E) : Prop where
  conserved : state.floor.Conserved
  accepted : state.floor.accepted <+: all
  going : state.isStopping = false → state.floor.dropped = [] ∧
    ∃ owed, Owes owed state.producer ∧ state.floor.accepted ++ owed = all

/-- A pool is faithful when it begins: nothing was accepted, and everything is owed. -/
theorem faithful_initial {all : List J} {producer : Producer J E} (cancelled : Bool)
    (owes : Owes all producer) :
    (State.initial producer cancelled : State J R E).Faithful all where
  conserved := Floor.conserved_empty
  accepted := List.nil_prefix
  going _ := ⟨rfl, all, owes, rfl⟩

/-- While its producer has something to ask, a pool stops only because it was cancelled. A producer
that has failed has nothing to ask any more. -/
@[simp] theorem State.isStopping_ask (request : Production J)
    (next : request.Answer → Producer J E) (floor : Floor J R) (cancelled : Bool) :
    (⟨.ask request next, floor, cancelled⟩ : State J R E).isStopping = cancelled := by
  simp [isStopping, produced?]

/-- A pool that goes on was not cancelled. -/
theorem State.uncancelled {state : State J R E} (going : state.isStopping = false) :
    state.cancelled = false := by
  cases cancelled : state.cancelled with
  | false => rfl
  | true => simp [isStopping, cancelled] at going

/-- No move loses a job or doubles one. There is one case for each kind of move, and each takes jobs
from one station to the next. -/
theorem Step.conserved {sizing : Sizing} {before after : State J R E} {event : Event J R}
    (move : Step sizing before event after) (conserved : before.floor.Conserved) :
    after.floor.Conserved := by
  cases move with
  | enqueue job next room => exact conserved.enqueue job
  | start going idle waiting => exact conserved.start
  | finish position job result running => exact conserved.finish position result
  | deliver job result rest first => exact conserved.deliver
  | discard stopping => exact conserved.discard
  | call | observe | refuse | cancel => exact conserved

/-- What a producer has done in a move of a pool that goes on: nothing, or it was answered and
handed over the job that it may have asked to hand over. -/
inductive Produced : Producer J E → Producer J E → List J → Prop
  | nothing (producer : Producer J E) : Produced producer producer []
  | called {call : Call} {next : call.Answer → Producer J E} (answer : call.Answer) :
      Produced (.ask (.call call) next) (next answer) []
  | observed {next : Bool → Producer J E} : Produced (.ask .isStopping next) (next false) []
  | handed {job : J} {next : Bool → Producer J E} :
      Produced (.ask (.queue job) next) (next true) [job]

/-- A pool that goes on after a move went on before it, has dropped nothing in it, and has
accepted what its producer handed over. -/
theorem Step.going {sizing : Sizing} {before after : State J R E} {event : Event J R}
    (move : Step sizing before event after) (still : after.isStopping = false) :
    before.isStopping = false ∧ after.floor.dropped = before.floor.dropped ∧
      ∃ jobs, Produced before.producer after.producer jobs ∧
        after.floor.accepted = before.floor.accepted ++ jobs := by
  have uncancelled := State.uncancelled still
  cases move with
  | call call next answer =>
    exact ⟨by simpa using uncancelled, rfl, [], .called answer, (List.append_nil _).symm⟩
  | observe next =>
    dsimp only at uncancelled
    subst uncancelled
    exact ⟨by simp, rfl, [], .observed, (List.append_nil _).symm⟩
  | enqueue job next room => exact ⟨by simp, rfl, [job], .handed, rfl⟩
  | refuse job next => cases uncancelled
  | start | finish | deliver =>
    exact ⟨still, by simp, [], .nothing _, by simp⟩
  | discard stopping =>
    have stopped : before.isStopping = false := still
    rw [stopping] at stopped
    cases stopped
  | cancel => cases uncancelled

/-- Every move keeps a pool faithful. Where the producer hands a job over, the first of the owed
jobs becomes the last of the accepted ones; all other moves leave both lists as they are. -/
theorem State.Faithful.step {sizing : Sizing} {all : List J} {before after : State J R E}
    {event : Event J R} (faithful : before.Faithful all) (move : Step sizing before event after) :
    after.Faithful all := by
  have going : after.isStopping = false → after.floor.dropped = [] ∧
      ∃ owed, Owes owed after.producer ∧ after.floor.accepted ++ owed = all := by
    intro still
    obtain ⟨former, dropped, jobs, produced, accepted⟩ := move.going still
    obtain ⟨none, owed, owes, split⟩ := faithful.going former
    refine ⟨dropped.trans none, ?_⟩
    rw [accepted]
    revert owes
    generalize before.producer = producer, after.producer = producer' at produced
    intro owes
    cases produced with
    | nothing => exact ⟨owed, owes, by simpa using split⟩
    | called answer => exact ⟨owed, owes answer, by simpa using split⟩
    | observed => exact ⟨owed, owes, by simpa using split⟩
    | handed =>
      obtain ⟨later, rfl, owes⟩ := owes
      exact ⟨later, owes, by simpa using split⟩
  refine ⟨move.conserved faithful.conserved, ?_, going⟩
  cases move with
  | enqueue job next room =>
    obtain ⟨-, owed, ⟨later, rfl, -⟩, split⟩ := faithful.going (by simp)
    exact ⟨later, by simpa [Floor.enqueue] using split⟩
  | start | finish | deliver => simpa using faithful.accepted
  | call | observe | refuse | discard | cancel => exact faithful.accepted

/-- A pool is faithful in every state that it can reach. The induction is on the moves that have led
there. -/
theorem Reachable.faithful {sizing : Sizing} {all : List J} {producer : Producer J E}
    {cancelled : Bool} {state : State J R E}
    (reachable : Reachable sizing (.initial producer cancelled) state)
    (owes : Owes all producer) : state.Faithful all := by
  induction reachable with
  | start => exact faithful_initial cancelled owes
  | step earlier move ih => exact ih.step move

/-- The producer of a pool that has come to its end is done, with the end that is told. -/
theorem State.producer_of_ended {state : State J R E} {produced : Except E Unit}
    (ended : state.ended? = some produced) : state.producer = .done produced := by
  unfold State.ended? State.produced? at ended
  split at ended
  · split at ended
    · rename_i result same
      cases ended
      exact same
    · cases ended
  · cases ended

/-- When a pool has ended well, its producer is done and nothing is left on the floor. -/
theorem State.ended_ok {state : State J R E} (ended : state.ended? = some (.ok ())) :
    state.producer = .done (.ok ()) ∧ state.floor.queue = [] ∧ state.floor.running = [] ∧
      state.floor.awaiting = [] := by
  unfold State.ended? at ended
  split at ended
  · rename_i quiet
    obtain ⟨⟨noQueue, noRunning⟩, noAwaiting⟩ : (state.floor.queue = [] ∧
        state.floor.running = []) ∧ state.floor.awaiting = [] := by
      simpa [Floor.isQuiet] using quiet
    refine ⟨?_, noQueue, noRunning, noAwaiting⟩
    cases producer : state.producer with
    | done result =>
      rw [State.produced?, producer] at ended
      cases ended
      rfl
    | ask request next => simp [State.produced?, producer] at ended
  · cases ended

/-- A pool that has ended well and was not cancelled goes on to its end: its producer has not
failed. -/
theorem State.going_of_ended {state : State J R E} (ended : state.ended? = some (.ok ()))
    (uncancelled : state.cancelled = false) : state.isStopping = false := by
  simp [isStopping, produced?, (ended_ok ended).1, uncancelled]

/-- A pool that has ended well and dropped nothing has carried out every job that it accepted. -/
theorem State.delivered_perm {state : State J R E} (ended : state.ended? = some (.ok ()))
    (conserved : state.floor.Conserved) (kept : state.floor.dropped = []) :
    (state.floor.delivered.map Prod.fst).Perm state.floor.accepted := by
  obtain ⟨-, noQueue, noRunning, noAwaiting⟩ := ended_ok ended
  rw [Floor.Conserved, Floor.stations, noQueue, noRunning, noAwaiting, kept] at conserved
  simpa using conserved.symm

/-- A pool that ended well and was not cancelled has carried out every job that its producer
owed. -/
theorem State.Faithful.complete {all : List J} {state : State J R E} (faithful : state.Faithful all)
    (ended : state.ended? = some (.ok ())) (uncancelled : state.cancelled = false) :
    (state.floor.delivered.map Prod.fst).Perm all := by
  obtain ⟨kept, owed, owes, split⟩ := faithful.going (going_of_ended ended uncancelled)
  rw [(ended_ok ended).1] at owes
  have nothing : owed = [] := owes
  rw [nothing, List.append_nil] at split
  rw [← split]
  exact delivered_perm ended faithful.conserved kept

end DatasetSync.Pool
