import DatasetSync.Proofs.Pool.Delivery

/-!
# The books of a pool balance

A run of a pool is written down twice: what its producer was asked for and answered, move by
move, and what the moves had to do with the surroundings. The jobs that the producer handed
over are then exactly those in the stations of the floor and those that were refused. Queue and
workers keep their limits, nothing is lost before the work is to stop, and a pool that has ended
owes nobody anything: every job that was carried out was handed back once, with its own result.

A job counts as handed over when the pool has answered for it. A producer that still waits for
room has not been answered, and its job is still its own.
-/

namespace DatasetSync

/-- No answer leads a program back to the question that was answered. A program that came back to
its question could be unfolded without end, and programs are finite trees. -/
theorem Program.next_ne_ask {interface : Interface} {α : Type} (request : interface.Request)
    (next : interface.Answer request → Program interface α) (answer : interface.Answer request) :
    next answer ≠ .ask request next := by
  suffices endless : ∀ program : Program interface α, ∀ next : interface.Answer request →
      Program interface α, program = .ask request next → next answer ≠ program from
    endless _ next rfl
  intro program
  induction program with
  | done value => exact fun next asks => by cases asks
  | ask request' next' ih =>
    intro next asks back
    cases asks
    exact ih answer next back rfl

namespace Pool

variable {J R E : Type}

/-- The job that is handed over, if one is. -/
def Production.job? : Production J → Option J
  | .queue job => some job
  | _ => none

/-- The job that was handed over and refused, if one was. -/
def refusal? : Exchange (Productions J) → Option J
  | ⟨.queue job, false⟩ => some job
  | _ => none

/-- The jobs that a producer has handed over. -/
def offered (trail : List (Exchange (Productions J))) : List J :=
  trail.filterMap fun exchange => exchange.request.job?

/-- The jobs that were refused to a producer. -/
def refused (trail : List (Exchange (Productions J))) : List J := trail.filterMap refusal?

/-- What a pool answers: it says whether it was cancelled, and it takes a job unless it was. -/
def Sincere (cancelled : Bool) : Exchange (Productions J) → Prop
  | ⟨.call _, _⟩ => True
  | ⟨.isStopping, answer⟩ => answer = cancelled
  | ⟨.queue _, answer⟩ => answer = !cancelled

/-- What passes between a pool and its producer in one move: nothing, or one answer. -/
def Answered (before after : State J R E) : Option (Exchange (Productions J)) → Prop
  | none => after.producer = before.producer
  | some exchange => Sincere before.cancelled exchange ∧
      ∃ next, before.producer = .ask exchange.request next ∧
        after.producer = next exchange.answer

/-- The runs of a pool, with what passed between it and its producer, and with what the moves
had to do with the surroundings, oldest first. -/
inductive Run (sizing : Sizing) (start : State J R E) :
    List (Exchange (Productions J)) → List (Event J R) → State J R E → Prop where
  | start : Run sizing start [] [] start
  | step {trail : List (Exchange (Productions J))} {events : List (Event J R)}
      {before after : State J R E} {event : Event J R}
      {exchange? : Option (Exchange (Productions J))} :
      Run sizing start trail events before → Step sizing before event after →
      Answered before after exchange? →
      Run sizing start (trail ++ exchange?.toList) (events ++ [event]) after

section Step

variable {sizing : Sizing} {before after : State J R E} {event : Event J R}
  {exchange? : Option (Exchange (Productions J))}

/-- In every move something passes between a pool and its producer, or nothing does. The exchange is
named here, since a trail has to be put together of the exchanges of all moves. -/
theorem Step.answered (move : Step sizing before event after) :
    ∃ exchange?, Answered before after exchange? := by
  cases move with
  | call call next answer => exact ⟨some ⟨.call call, answer⟩, trivial, next, rfl, rfl⟩
  | observe next => exact ⟨some ⟨.isStopping, _⟩, rfl, next, rfl, rfl⟩
  | enqueue job next room => exact ⟨some ⟨.queue job, true⟩, rfl, next, rfl, rfl⟩
  | refuse job next => exact ⟨some ⟨.queue job, false⟩, rfl, next, rfl, rfl⟩
  | start | finish | deliver | discard | cancel => exact ⟨none, rfl⟩

/-- When the producer does not move, nothing passes between it and its pool: an exchange would have
led the producer on, and it cannot come back to its question. -/
theorem Answered.eq_none (answered : Answered before after exchange?)
    (same : after.producer = before.producer) : exchange? = none := by
  cases exchange? with
  | none => rfl
  | some exchange =>
    obtain ⟨-, next, asked, given⟩ := answered
    exact (Program.next_ne_ask exchange.request next exchange.answer
      (given.symm.trans (same.trans asked))).elim

/-- When the producer is answered, what passes is an answer to what it asked, and a sincere one: it
tells of the cancellation only where there was one. -/
theorem Answered.eq_some {request : Production J} {next : request.Answer → Producer J E}
    (answered : Answered before after exchange?) (asks : before.producer = .ask request next)
    (given : ∃ answer, after.producer = next answer) :
    ∃ answer, exchange? = some ⟨request, answer⟩ ∧
      Sincere before.cancelled (⟨request, answer⟩ : Exchange (Productions J)) := by
  cases exchange? with
  | none =>
    obtain ⟨answer, given⟩ := given
    have same : after.producer = before.producer := answered
    exact (@Program.next_ne_ask (Productions J) _ request next answer
      (given.symm.trans (same.trans asks))).elim
  | some exchange =>
    obtain ⟨sincere, next', asked, -⟩ := answered
    obtain ⟨request', answer⟩ := exchange
    cases asks.symm.trans asked
    exact ⟨answer, rfl, sincere⟩

/-- A move accepts the job that is handed over in it, unless it refuses that job. -/
theorem Step.offer (move : Step sizing before event after)
    (answered : Answered before after exchange?) :
    after.floor.accepted ++ refused exchange?.toList =
      before.floor.accepted ++ offered exchange?.toList := by
  cases move with
  | call call next answer =>
    obtain ⟨given, rfl, -⟩ := answered.eq_some rfl ⟨answer, rfl⟩
    simp [refused, offered, refusal?, Production.job?]
  | observe next =>
    obtain ⟨given, rfl, -⟩ := answered.eq_some rfl ⟨_, rfl⟩
    simp [refused, offered, refusal?, Production.job?]
  | enqueue job next room =>
    obtain ⟨given, rfl, sincere⟩ := answered.eq_some rfl ⟨true, rfl⟩
    have taken : given = true := sincere
    subst taken
    simp [refused, offered, refusal?, Production.job?, Floor.enqueue]
  | refuse job next =>
    obtain ⟨given, rfl, sincere⟩ := answered.eq_some rfl ⟨false, rfl⟩
    have turned : given = false := sincere
    subst turned
    simp [refused, offered, refusal?, Production.job?]
  | start | finish | deliver | discard | cancel =>
    cases answered.eq_none rfl
    simp [refused, offered, Floor.discard]

/-- A job is refused only when the work was cancelled before. Without a cancellation the pool takes
what it is offered. -/
theorem Answered.refused_nil (answered : Answered before after exchange?)
    (uncancelled : before.cancelled = false) : refused exchange?.toList = [] := by
  cases exchange? with
  | none => rfl
  | some exchange =>
    obtain ⟨request, answer⟩ := exchange
    obtain ⟨sincere, -⟩ := answered
    cases request with
    | call call => rfl
    | isStopping => rfl
    | queue job =>
      have taken : answer = !before.cancelled := sincere
      simp [refused, refusal?, taken, uncancelled]

/-- The limits of the queue and of the workers. -/
def Floor.Within (sizing : Sizing) (floor : Floor J R) : Prop :=
  floor.queue.length ≤ sizing.room ∧ floor.running.length ≤ sizing.crew

/-- Every move keeps the limits: a job is queued only where there is room in the queue, and begun
only by a worker who is free. -/
theorem Step.within (move : Step sizing before event after) (within : before.floor.Within sizing) :
    after.floor.Within sizing := by
  obtain ⟨queued, running⟩ := within
  cases move with
  | enqueue job next room =>
    have free := of_decide_eq_true room
    exact ⟨by simpa [Floor.enqueue] using Nat.succ_le_of_lt free, running⟩
  | start going idle waiting =>
    have free : before.floor.running.length < sizing.crew := of_decide_eq_true idle
    obtain ⟨job, queue, split⟩ := List.exists_cons_of_ne_nil waiting
    simp only [split, List.length_cons] at queued
    refine ⟨?_, ?_⟩
    · simp only [Floor.start, split]
      omega
    · simp only [Floor.start, split, List.length_append, List.length_singleton]
      omega
  | finish position job result found =>
    refine ⟨by simpa [Floor.finish, found] using queued, ?_⟩
    simp only [Floor.finish, found]
    exact Nat.le_trans (List.length_eraseIdx_le _ _) running
  | deliver job result rest first =>
    exact ⟨by simpa [Floor.deliver, first] using queued,
      by simpa [Floor.deliver, first] using running⟩
  | discard stopping => exact ⟨Nat.zero_le _, running⟩
  | call | observe | refuse | cancel => exact ⟨queued, running⟩

/-- After a move the work is cancelled if it was before, or if it is cancelled in this move. -/
theorem Step.cancelled_iff (move : Step sizing before event after) :
    after.cancelled = true ↔ before.cancelled = true ∨ event = .cancelled := by
  cases move <;> simp

end Step

/-- A pool is to stop just if it was cancelled or its producer has given up. -/
theorem State.isStopping_iff (state : State J R E) :
    state.isStopping = true ↔
      state.cancelled = true ∨ ∃ error, state.producer = .done (.error error) := by
  cases producer : state.producer with
  | done result => cases result <;> simp [isStopping, produced?, producer]
  | ask request next => simp [isStopping, produced?, producer]

/-- When a pool has ended, its producer is done and nothing is left on the floor. -/
theorem State.ended_iff {state : State J R E} {result : Except E Unit} :
    state.ended? = some result ↔ state.producer = .done result ∧ state.floor.queue = [] ∧
      state.floor.running = [] ∧ state.floor.awaiting = [] := by
  cases producer : state.producer with
  | done reached =>
    simp [ended?, produced?, producer, Floor.isQuiet, and_assoc, and_comm]
  | ask request next => simp [ended?, produced?, producer]

namespace Run

variable {sizing : Sizing} {start : State J R E} {producer : Producer J E} {cancelled : Bool}
  {trail : List (Exchange (Productions J))} {events : List (Event J R)} {state : State J R E}

/-- A run ends in a state that the pool can reach. What was proved of reachable states is at hand
for runs. -/
theorem reachable (run : Run sizing start trail events state) :
    Reachable sizing start state := by
  induction run with
  | start => exact .start
  | step earlier move answered ih => exact .step ih move

/-- What passed between a pool and its producer is a trail through the producer. The induction is on
the run; an exchange of a move is the next one of the trail. -/
theorem leads (run : Run sizing start trail events state) :
    start.producer.Leads trail state.producer := by
  induction run with
  | start => exact .here _
  | @step trail events before after event exchange? earlier move answered ih =>
    cases exchange? with
    | none =>
      have same : after.producer = before.producer := answered
      simpa [same] using ih
    | some exchange =>
      obtain ⟨-, next, asked, given⟩ := answered
      rw [asked] at ih
      rw [given]
      exact ih.answered exchange.answer

/-- No run loses a job on the floor or doubles one. -/
theorem conserved (run : Run sizing (.initial producer cancelled) trail events state) :
    state.floor.Conserved := by
  induction run with
  | start => exact Floor.conserved_empty
  | step earlier move answered ih => exact move.conserved ih

/-- The jobs that were handed over are those that were accepted and those that were refused. -/
theorem offered_perm (run : Run sizing (.initial producer cancelled) trail events state) :
    (offered trail).Perm (state.floor.accepted ++ refused trail) := by
  classical
  induction run with
  | start => exact .refl _
  | step earlier move answered ih =>
    refine List.perm_iff_count.mpr fun job => ?_
    have former := List.perm_iff_count.mp ih job
    have latest := congrArg (List.count job) (move.offer answered)
    simp only [offered, refused, List.filterMap_append, List.count_append] at former latest ⊢
    omega

/-- Queue and workers keep their limits in every run. The sizes that are set to zero count as
one. -/
theorem within (run : Run sizing (.initial producer cancelled) trail events state) :
    state.floor.Within sizing := by
  induction run with
  | start => exact ⟨Nat.zero_le _, Nat.zero_le _⟩
  | step earlier move answered ih => exact move.within ih

/-- The work is cancelled just if it was so from the start or was cancelled in a move. -/
theorem cancelled_iff (run : Run sizing start trail events state) :
    state.cancelled = true ↔ start.cancelled = true ∨ Event.cancelled ∈ events := by
  induction run with
  | start => simp
  | step earlier move answered ih =>
    simp only [move.cancelled_iff, ih, List.mem_append, List.mem_singleton, or_assoc,
      eq_comm]

/-- A job is lost only when the work is to stop: while it is not, none was dropped and none was
refused. -/
theorem nothing_lost (run : Run sizing (.initial producer cancelled) trail events state)
    (going : state.isStopping = false) : state.floor.dropped = [] ∧ refused trail = [] := by
  induction run with
  | start => exact ⟨rfl, rfl⟩
  | step earlier move answered ih =>
    obtain ⟨former, dropped, -⟩ := move.going going
    obtain ⟨none, kept⟩ := ih former
    have taken := answered.refused_nil (State.uncancelled former)
    refine ⟨dropped.trans none, ?_⟩
    rw [refused] at kept taken ⊢
    rw [List.filterMap_append, kept, taken, List.append_nil]

/-- The completions on the floor are those of the moves, in their order. -/
theorem delivered_eq (run : Run sizing (.initial producer cancelled) trail events state) :
    state.floor.delivered = events.filterMap Event.delivery? := by
  induction run with
  | start => rfl
  | step earlier move answered ih =>
    rw [move.delivered, ih, filterMap_snoc]

/-- The jobs that were carried out on the floor are those of the moves, in their order. -/
theorem executed_eq (run : Run sizing (.initial producer cancelled) trail events state) :
    state.floor.executed = events.filterMap Event.execution? := by
  induction run with
  | start => rfl
  | step earlier move answered ih =>
    rw [move.executed, ih, filterMap_snoc]

end Run

/-- What is written down of every state that a pool can reach can be written down as a run. -/
theorem Reachable.exists_run {sizing : Sizing} {start state : State J R E}
    (reachable : Reachable sizing start state) :
    ∃ trail events, Run sizing start trail events state := by
  induction reachable with
  | start => exact ⟨[], [], .start⟩
  | step earlier move ih =>
    obtain ⟨trail, events, run⟩ := ih
    obtain ⟨exchange?, answered⟩ := move.answered
    exact ⟨_, _, run.step move answered⟩

/-- What the books of a pool say, given whether the work was cancelled before the pool began. -/
structure Balanced (sizing : Sizing) (cancelled : Bool)
    (trail : List (Exchange (Productions J))) (events : List (Event J R))
    (state : State J R E) : Prop where
  /-- Every job that the producer handed over is in one place: it waits, it runs, it awaits its
  handing back, it was handed back, or it is lost, be it dropped or refused. -/
  conserved : (offered trail).Perm (state.floor.queue ++ state.floor.running
    ++ state.floor.awaiting.map Prod.fst ++ state.floor.delivered.map Prod.fst
    ++ (state.floor.dropped ++ refused trail))
  /-- No more jobs wait than there is room for. -/
  queued : state.floor.queue.length ≤ max sizing.capacity 1
  /-- No more jobs run than there are workers. -/
  busy : state.floor.running.length ≤ max sizing.workers 1
  /-- A job is lost only after a cancellation or after the producer gave up. -/
  excused : state.floor.dropped ++ refused trail ≠ [] →
    (cancelled = true ∨ .cancelled ∈ events) ∨ ∃ error, state.producer = .done (.error error)
  /-- What was handed back was handed back in the moves. -/
  delivered : state.floor.delivered = events.filterMap Event.delivery?
  /-- Of what was carried out, what was not handed back yet still awaits that, in order and with
  its own result. -/
  executed : events.filterMap Event.execution? =
    events.filterMap Event.delivery? ++ state.floor.awaiting
  /-- When the pool has ended, nothing is left on the floor, and each job that was carried out
  was handed back once. If the producer ended well and nobody cancelled, what was handed back
  is what the producer handed over. -/
  settled : ∀ result, state.ended? = some result →
    state.producer = .done result ∧ state.floor.queue = [] ∧ state.floor.running = [] ∧
      state.floor.awaiting = [] ∧
      events.filterMap Event.delivery? = events.filterMap Event.execution? ∧
      (result = .ok () → cancelled = false → .cancelled ∉ events →
        ((events.filterMap Event.delivery?).map Prod.fst).Perm (offered trail))

section Balance

variable {sizing : Sizing} {producer : Producer J E} {cancelled : Bool}
  {trail : List (Exchange (Productions J))} {events : List (Event J R)} {state : State J R E}

/-- The jobs that were handed over are those in the stations and those that were refused. -/
theorem Run.offered_stations
    (run : Run sizing (.initial producer cancelled) trail events state) :
    (offered trail).Perm (state.floor.queue ++ state.floor.running
      ++ state.floor.awaiting.map Prod.fst ++ state.floor.delivered.map Prod.fst
      ++ (state.floor.dropped ++ refused trail)) := by
  have stationed : (state.floor.accepted ++ refused trail).Perm
      (state.floor.stations ++ refused trail) := run.conserved.append_right _
  simpa only [Floor.stations, List.append_assoc] using run.offered_perm.trans stationed

/-- A pool that ended well and was never cancelled has handed back what its producer handed
over. -/
theorem Run.complete (run : Run sizing (.initial producer cancelled) trail events state)
    (ended : state.ended? = some (.ok ())) (uncancelled : state.cancelled = false) :
    (state.floor.delivered.map Prod.fst).Perm (offered trail) := by
  obtain ⟨kept, taken⟩ := run.nothing_lost (State.going_of_ended ended uncancelled)
  obtain ⟨-, noQueue, noRunning, noAwaiting⟩ := State.ended_ok ended
  simpa [noQueue, noRunning, noAwaiting, kept, taken] using run.offered_stations.symm

/-- The books of every run balance: what was generated is told by the trail of the producer, what
was taken up, carried out and reported by the moves, and what is left by the floor. -/
theorem Run.balanced (run : Run sizing (.initial producer cancelled) trail events state) :
    Balanced sizing cancelled trail events state where
  conserved := run.offered_stations
  queued := run.within.1
  busy := run.within.2
  excused lost := by
    have stopping : state.isStopping = true := by
      by_contra going
      obtain ⟨kept, taken⟩ := run.nothing_lost (Bool.eq_false_iff.mpr going)
      exact lost (by rw [kept, taken, List.append_nil])
    rcases state.isStopping_iff.mp stopping with stopped | gaveUp
    · exact .inl (run.cancelled_iff.mp stopped)
    · exact .inr gaveUp
  delivered := run.delivered_eq
  executed := by rw [← run.executed_eq, ← run.delivered_eq, Floor.executed]
  settled result ended := by
    obtain ⟨done, noQueue, noRunning, noAwaiting⟩ := State.ended_iff.mp ended
    refine ⟨done, noQueue, noRunning, noAwaiting, ?_, ?_⟩
    · rw [← run.executed_eq, ← run.delivered_eq, Floor.executed, noAwaiting, List.append_nil]
    · rintro rfl fresh never
      have uncancelled : state.cancelled = false := by
        rw [Bool.eq_false_iff, Ne, run.cancelled_iff, not_or]
        exact ⟨Bool.eq_false_iff.mp fresh, never⟩
      rw [← run.delivered_eq]
      exact run.complete ended uncancelled

/-- Whatever the producer, the limits, the answers, the results and the order of the moves, a
state that a pool can reach is the end of a run, and the books of every run to it balance. -/
theorem reachable_balanced
    (reachable : Reachable sizing (.initial producer cancelled) state) :
    (∃ trail events, Run sizing (.initial producer cancelled) trail events state) ∧
      ∀ trail events, Run sizing (.initial producer cancelled) trail events state →
        producer.Leads trail state.producer ∧ Balanced sizing cancelled trail events state :=
  ⟨reachable.exists_run, fun _ _ run => ⟨run.leads, run.balanced⟩⟩

end Balance

section Pair

/-- A producer that hands over two jobs and takes no notice of the answers. -/
def pair : Producer Nat Unit :=
  .ask (.queue 0) fun _ => .ask (.queue 1) fun _ => .done (.ok ())

/-- Both jobs were carried out and handed back, the second one without success. -/
def pairDone : State Nat Bool Unit :=
  ⟨.done (.ok ()), ⟨[0, 1], [], [], [], [(0, true), (1, false)], [], 1⟩, false⟩

/-- The pool of these two jobs before it begins. -/
def pairStart : State Nat Bool Unit := .initial pair false

/-- One worker and room for one job, each limit given as zero, are enough: the second job waits
while the first one runs. -/
theorem pairDone_reachable : Reachable ⟨0, 0⟩ pairStart pairDone := by
  have queued : Reachable ⟨0, 0⟩ pairStart ⟨.ask (.queue 1) fun _ => .done (.ok ()),
      ⟨[0], [0], [], [], [], [], 0⟩, false⟩ := .step .start (.enqueue 0 _ rfl)
  have started : Reachable ⟨0, 0⟩ pairStart ⟨.ask (.queue 1) fun _ => .done (.ok ()),
      ⟨[0], [], [0], [], [], [], 1⟩, false⟩ := queued.step (.start rfl rfl (by decide))
  have waiting : Reachable ⟨0, 0⟩ pairStart ⟨.done (.ok ()),
      ⟨[0, 1], [1], [0], [], [], [], 1⟩, false⟩ := started.step (.enqueue 1 _ rfl)
  have finished : Reachable ⟨0, 0⟩ pairStart ⟨.done (.ok ()),
      ⟨[0, 1], [1], [], [(0, true)], [], [], 1⟩, false⟩ := waiting.step (.finish 0 0 true rfl)
  have delivered : Reachable ⟨0, 0⟩ pairStart ⟨.done (.ok ()),
      ⟨[0, 1], [1], [], [], [(0, true)], [], 1⟩, false⟩ := finished.step (.deliver 0 true [] rfl)
  have restarted : Reachable ⟨0, 0⟩ pairStart ⟨.done (.ok ()),
      ⟨[0, 1], [], [1], [], [(0, true)], [], 1⟩, false⟩ :=
    delivered.step (.start rfl rfl (by decide))
  exact (restarted.step (.finish 0 1 false rfl)).step (.deliver 1 false [] rfl)

/-- The books of the two jobs balance, in a pool whose sizes are set to zero. -/
theorem reachable_balanced_pair :
    Reachable ⟨0, 0⟩ pairStart pairDone ∧
      pairDone.ended? = some (.ok ()) ∧
      (∃ trail events, Run ⟨0, 0⟩ pairStart trail events pairDone) ∧
      ∀ trail events, Run ⟨0, 0⟩ pairStart trail events pairDone →
        pair.Leads trail pairDone.producer ∧ Balanced ⟨0, 0⟩ false trail events pairDone :=
  have balanced := reachable_balanced pairDone_reachable
  ⟨pairDone_reachable, rfl, balanced.1, balanced.2⟩

end Pair

end Pool

end DatasetSync
