import DatasetSync.Proofs.Sync.CopyRun
import DatasetSync.Proofs.Sync.Ending
import DatasetSync.Proofs.Sync.Sweep

/-!
# The course of a run

A run moves from its start to its end, others change the surroundings between its moves, and it
may be cancelled at any moment: before its first move, while jobs are made, wait, run or have
just ended, and while it is being concluded. A course lists the turns of the run: the moves that
it has made itself, and its cancellations. Nothing is assumed of the plan, of the surroundings, or
of what others do.

What cancellation cannot do is said here once. As long as the pool of a run is not cancelled,
the course is the history of a pool that nobody ever cancelled. A run looks once whether it was
cancelled, when its pool has come to its end. Hence a run that commits, or finds nothing to
commit, has carried out all its jobs.
-/

namespace DatasetSync

/-- What a run did, or what happened to it. -/
inductive Deed where
  /-- Its pool moved. -/
  | worked (event : Pool.Event SyncJob (Except StorageError Unit))
  /-- It made one of the calls that conclude it, and was answered. -/
  | asked (exchange : Exchange Calls)
  /-- It was cancelled. -/
  | cancelled

/-- A turn of a run, and the surroundings that it met and left. -/
structure Turn where
  before : Backends
  after : Backends
  deed : Deed

/-- The turn as a move of the pool, if it was one. -/
def Turn.moment? (turn : Turn) : Option Moment :=
  match turn.deed with
  | .worked event => some ⟨turn.before, event⟩
  | _ => none

/-- The concluding call of the turn, if it was one. -/
def Turn.exchange? (turn : Turn) : Option (Exchange Calls) :=
  match turn.deed with
  | .asked exchange => some exchange
  | _ => none

/-- The last entry of a list that is cut at an entry is this entry itself, or it comes behind it. -/
theorem last_or_behind {α : Type} {entries front back : List α} {last entry : α}
    (cut : entries ++ [last] = front ++ entry :: back) :
    (entries = front ∧ last = entry) ∨
      ∃ behind, back = behind ++ [last] ∧ entries = front ++ entry :: behind := by
  rcases List.eq_nil_or_concat' back with rfl | ⟨behind, final, rfl⟩
  · obtain ⟨rfl, same⟩ := List.append_inj' cut rfl
    exact .inl ⟨rfl, List.singleton_inj.mp same⟩
  · rw [← List.cons_append, ← List.append_assoc] at cut
    obtain ⟨rfl, same⟩ := List.append_inj' cut rfl
    exact .inr ⟨behind, by rw [List.singleton_inj.mp same], rfl⟩

/-- A run whose pool is at work has made no concluding call; those come after the pool has ended. -/
theorem ActiveRun.HasMade.silent {run : ActiveRun} {trail : List (Exchange Calls)} {pool : SyncPool}
    (made : run.HasMade trail) (stage : run.stage = .working pool) : trail = [] := by
  cases made with
  | working => rfl
  | concluding stage' => cases stage.symm.trans stage'

/-- A turn of a run: its pool has moved, it has made the call that it was about to make and was
answered, or it was cancelled. -/
inductive Turn.TakenBy (run : ActiveRun) : Turn → Prop
  | worked {pool pool' : SyncPool} {tree' : FileTree} {before after : Backends}
      {event : Pool.Event SyncJob (Except StorageError Unit)} (stage : run.stage = .working pool)
      (move : Pool.Step run.plan.sizing pool event pool')
      (effect : ActiveRun.Effect Backends.answer run.plan event (before, run.tree) (after, tree'))
      (documents : after.documents = before.documents) : TakenBy run ⟨before, after, .worked event⟩
  | asked {call : Call} {next : call.Answer → Calling (Except SyncError RunOutcome)}
      (before : Backends) (stage : run.stage = .concluding (.ask call next)) :
      TakenBy run ⟨before, (before.answer call).2, .asked ⟨call, (before.answer call).1⟩⟩
  | cancelled (before : Backends) : TakenBy run ⟨before, before, .cancelled⟩

/-- A call that was made in a turn was answered by the surroundings that the turn met. -/
theorem Turn.TakenBy.answered {run : ActiveRun} {turn : Turn} {call : Call} {answer : call.Answer}
    (taken : turn.TakenBy run) (asked : turn.exchange? = some ⟨call, answer⟩) :
    turn.before.answer call = (answer, turn.after) := by
  cases taken with
  | worked => cases asked
  | asked before stage =>
    cases asked
    rfl
  | cancelled => cases asked

namespace SyncPlan

open Pool

/-- A run of a plan was started in given surroundings and has taken a list of turns, oldest first;
between these turns others change the surroundings. A run that was cancelled before it was started
is cancelled in its first turn. -/
inductive Course (plan : SyncPlan) (others : Backends → Backends → Prop) (first : Backends) :
    List Turn → ActiveRun → Backends → Prop
  | start : Course plan others first [] (.start plan false) first
  | work {history : List Turn} {pool pool' : SyncPool} {tree tree' : FileTree}
      {backends backends' : Backends} {event : Event SyncJob (Except StorageError Unit)}
      (past : Course plan others first history ⟨plan, tree, .working pool⟩ backends)
      (move : Step plan.sizing pool event pool')
      (effect : ActiveRun.Effect Backends.answer plan event (backends, tree)
        (backends', tree')) :
      Course plan others first (history ++ [⟨backends, backends', .worked event⟩])
        ⟨plan, tree', .working pool'⟩ backends'
  | conclude {history : List Turn} {pool : SyncPool} {tree : FileTree} {backends : Backends}
      {produced : Except SyncError Unit}
      (past : Course plan others first history ⟨plan, tree, .working pool⟩ backends)
      (ended : pool.ended? = some produced) :
      Course plan others first history
        ⟨plan, tree, .concluding (plan.conclude tree produced pool.cancelled)⟩ backends
  | call {history : List Turn} {tree : FileTree} {backends : Backends} {call : Call}
      {next : call.Answer → Calling (Except SyncError RunOutcome)}
      (past : Course plan others first history ⟨plan, tree, .concluding (.ask call next)⟩
        backends) :
      Course plan others first
        (history ++ [⟨backends, (backends.answer call).2,
          .asked ⟨call, (backends.answer call).1⟩⟩])
        ⟨plan, tree, .concluding (next (backends.answer call).1)⟩ (backends.answer call).2
  | cancel {history : List Turn} {run : ActiveRun} {backends : Backends}
      (past : Course plan others first history run backends) :
      Course plan others first (history ++ [⟨backends, backends, .cancelled⟩]) run.cancel backends
  | change {history : List Turn} {run : ActiveRun} {backends backends' : Backends}
      (past : Course plan others first history run backends)
      (change : others backends backends') : Course plan others first history run backends'

/-- The moves of the pool. -/
def moments (history : List Turn) : List Moment := history.filterMap Turn.moment?

/-- The calls that conclude the run. -/
def exchanges (history : List Turn) : List (Exchange Calls) := history.filterMap Turn.exchange?

variable {plan : SyncPlan} {others : Backends → Backends → Prop}
  {history front back : List Turn} {turn : Turn} {run run' : ActiveRun} {tree : FileTree}
  {pool : SyncPool} {first backends backends' : Backends}
  {rest : Calling (Except SyncError RunOutcome)} {outcome : Except SyncError RunOutcome}

/-- One more turn adds its moment, if the pool was at work in it. -/
theorem moments_append :
    moments (history ++ [turn]) = moments history ++ turn.moment?.toList :=
  filterMap_snoc _ history turn

/-- One more turn adds its exchange, if it was one of the conclusion. -/
theorem exchanges_append :
    exchanges (history ++ [turn]) = exchanges history ++ turn.exchange?.toList :=
  filterMap_snoc _ history turn

/-- A concluding call in the middle of others was made in a turn in the middle of others. -/
theorem exists_turn {earlier later : List (Exchange Calls)} {exchange : Exchange Calls}
    (trail : exchanges history = earlier ++ exchange :: later) :
    ∃ front turn back, history = front ++ turn :: back ∧ exchanges front = earlier ∧
      turn.exchange? = some exchange ∧ exchanges back = later := by
  obtain ⟨front, rest, rfl, before, after⟩ := List.filterMap_eq_append_iff.mp trail
  obtain ⟨quiet, turn, back, rfl, silent, asked, behind⟩ := List.filterMap_eq_cons_iff.mp after
  refine ⟨front ++ quiet, turn, back, by simp, ?_, asked, behind⟩
  rw [exchanges, List.filterMap_append, before, List.filterMap_eq_nil_iff.mpr silent,
    List.append_nil]

namespace Course

/-- A run never changes its plan, whatever others do meanwhile. -/
theorem plan_eq (course : plan.Course others first history run backends) : run.plan = plan := by
  induction course with
  | cancel past ih => rw [ActiveRun.plan_cancel, ih]
  | change past change ih => exact ih
  | start | work | conclude | call => rfl

/-- Whatever a run can do goes on with its course: it is a turn that is added, or the moment in
which the pool ends, which is no turn. No move of the run cancels it. -/
theorem step (course : plan.Course others first history run backends)
    (move : ActiveRun.Step Backends.answer (run, backends) (run', backends')) :
    plan.Course others first history run' backends' ∨
      ∃ deed, deed ≠ .cancelled ∧
        plan.Course others first (history ++ [⟨backends, backends', deed⟩]) run' backends' := by
  have same := course.plan_eq
  cases move with
  | work move effect =>
    subst same
    refine .inr ⟨_, ?_, course.work move effect⟩
    nofun
  | conclude tree state ended =>
    subst same
    exact .inl (course.conclude ended)
  | call call next tree state =>
    subst same
    refine .inr ⟨_, ?_, course.call⟩
    nofun

/-- The pool of a run goes through states that it can reach, cancelled or not. What others do to the
surroundings is no move of the pool. -/
theorem reachable (course : plan.Course others first history run backends)
    (stage : run.stage = .working pool) :
    Reachable plan.sizing (.initial plan.produce false) pool := by
  induction course generalizing pool with
  | start =>
    cases stage
    exact .start
  | work past move effect ih =>
    cases stage
    exact (ih rfl).step move
  | conclude => cases stage
  | call => cases stage
  | @cancel history run backends past ih =>
    cases former : run.stage with
    | working pool' =>
      rw [ActiveRun.cancel, former] at stage
      cases stage
      exact (ih former).step .cancel
    | concluding rest =>
      rw [ActiveRun.cancel, former] at stage
      cases former.symm.trans stage
  | change past change ih => exact ih stage

/-- A run whose pool is at work and not cancelled has the history of a pool that nobody ever
cancelled. -/
theorem working (course : plan.Course others first history run backends)
    (stage : run.stage = .working pool) (uncancelled : pool.cancelled = false) :
    plan.Working others first (moments history) pool run.tree backends := by
  induction course generalizing pool with
  | start =>
    cases stage
    exact .start
  | @work history former pool' tree tree' backends backends' event past move effect ih =>
    cases stage
    rw [moments_append]
    exact (ih rfl ((move.cancelled_eq effect.inside).symm.trans uncancelled)).work move effect
  | conclude => cases stage
  | call => cases stage
  | @cancel history run backends past ih =>
    cases former : run.stage with
    | working pool' =>
      rw [ActiveRun.cancel, former] at stage
      cases stage
      cases uncancelled
    | concluding rest =>
      rw [ActiveRun.cancel, former] at stage
      cases former.symm.trans stage
  | change past change ih => exact (ih stage uncancelled).change change

/-- A run has made the concluding calls of its course, in their order, and no others. -/
theorem hasMade (course : plan.Course others first history run backends) :
    run.HasMade (exchanges history) := by
  induction course with
  | start => exact ActiveRun.hasMade_start plan false
  | work past move effect ih =>
    rw [exchanges_append]
    exact (ih.step (.work move effect)).2
  | conclude past ended ih =>
    rw [ih.silent rfl]
    exact .concluding rfl (.here _)
  | @call history tree backends call next past ih =>
    rw [exchanges_append]
    exact (ih.step (.call call next tree backends)).2
  | cancel past ih =>
    rw [exchanges_append, Turn.exchange?, Option.toList_none, List.append_nil]
    exact ih.cancel
  | change past change ih => exact ih

/-- A pool that is cancelled was cancelled in some turn of the course: at the start it was not, and
it does not cancel itself. -/
theorem cancelled (course : plan.Course others first history run backends)
    (stage : run.stage = .working pool) (stopped : pool.cancelled = true) :
    ∃ turn ∈ history, turn.deed = .cancelled := by
  induction course generalizing pool with
  | start =>
    cases stage
    cases stopped
  | work past move effect ih =>
    cases stage
    obtain ⟨turn, member, same⟩ := ih rfl ((move.cancelled_eq effect.inside).symm.trans stopped)
    exact ⟨turn, List.mem_append_left _ member, same⟩
  | conclude => cases stage
  | call => cases stage
  | cancel past ih => exact ⟨_, List.mem_concat_self, rfl⟩
  | change past change ih => exact ih stage stopped

/-- A course is cut in two at any of its turns: what comes before is a course, and the turn was
taken by the run that this course has led to. -/
theorem around (course : plan.Course others first history run backends)
    (cut : history = front ++ turn :: back) :
    ∃ former, plan.Course others first front former turn.before ∧ turn.TakenBy former := by
  induction course generalizing back with
  | start => simp at cut
  | work past move effect ih =>
    rcases last_or_behind cut with ⟨rfl, rfl⟩ | ⟨back, -, earlier⟩
    · exact ⟨_, past, .worked rfl move effect (past.hasMade.documents (.work move effect))⟩
    · exact ih earlier
  | call past ih =>
    rcases last_or_behind cut with ⟨rfl, rfl⟩ | ⟨back, -, earlier⟩
    · exact ⟨_, past, .asked _ rfl⟩
    · exact ih earlier
  | conclude past ended ih => exact ih cut
  | cancel past ih =>
    rcases last_or_behind cut with ⟨rfl, rfl⟩ | ⟨back, -, earlier⟩
    · exact ⟨_, past, .cancelled _⟩
    · exact ih earlier
  | change past change ih => exact ih cut

/-- Every turn of a run was taken where its course had come to by then. -/
theorem taken (course : plan.Course others first history run backends) (member : turn ∈ history) :
    ∃ front former, plan.Course others first front former turn.before ∧ turn.TakenBy former := by
  obtain ⟨front, back, cut⟩ := List.append_of_mem member
  exact ⟨front, course.around cut⟩

/-- A run that is being concluded follows the program of its conclusion, which its pool and its
tree have decided on when the pool came to its end. If the pool was stopped then, this was in some
turn; else it is one that nobody ever cancelled and that has come to its end. -/
theorem concluding (course : plan.Course others first history run backends)
    (stage : run.stage = .concluding rest) :
    ∃ produced cancelled,
      (plan.conclude run.tree produced cancelled).Leads (exchanges history) rest ∧
      (cancelled = true → ∃ turn ∈ history, turn.deed = .cancelled) ∧
      (produced = .ok () → cancelled = false → ∃ pool earlier,
        plan.Working others first (moments history) pool run.tree earlier ∧
          pool.ended? = some (.ok ())) := by
  induction course generalizing rest with
  | start => cases stage
  | work => cases stage
  | @conclude history pool tree backends produced past ended ih =>
    cases stage
    refine ⟨produced, pool.cancelled, (past.hasMade.silent rfl).symm ▸ .here _,
      past.cancelled rfl, ?_⟩
    rintro rfl uncancelled
    exact ⟨pool, backends, past.working rfl uncancelled, ended⟩
  | @call history tree backends call next past ih =>
    cases stage
    obtain ⟨produced, cancelled, leads, stopped, whole⟩ := ih rfl
    refine ⟨produced, cancelled, ?_, fun sign => ?_, ?_⟩
    · rw [exchanges_append]
      exact leads.answered (backends.answer call).1
    · obtain ⟨turn, member, same⟩ := stopped sign
      exact ⟨turn, List.mem_append_left _ member, same⟩
    · rw [moments_append, Turn.moment?, Option.toList_none, List.append_nil]
      exact whole
  | @cancel history run backends past ih =>
    cases former : run.stage with
    | working pool =>
      rw [ActiveRun.cancel, former] at stage
      cases stage
    | concluding rest' =>
      have same : run.cancel = run := by rw [ActiveRun.cancel, former]
      rw [same] at stage ⊢
      obtain ⟨produced, cancelled, leads, -, whole⟩ := ih stage
      refine ⟨produced, cancelled, ?_, fun _ => ⟨_, List.mem_concat_self, rfl⟩, ?_⟩
      · rwa [exchanges_append, Turn.exchange?, Option.toList_none, List.append_nil]
      · rwa [moments_append, Turn.moment?, Option.toList_none, List.append_nil]
  | change past change ih => exact ih stage

/-- A run that has come to its end was cancelled or could not make all its jobs, and has made no
concluding call, or its pool is one that nobody ever cancelled and that has come to its end, and
the run has one of the listed endings. -/
theorem ending (course : plan.Course others first history run backends)
    (ended : run.outcome? = some outcome) :
    (exchanges history = [] ∧
        ((outcome = .ok .cancelled ∧ ∃ turn ∈ history, turn.deed = .cancelled) ∨
          ∃ error, outcome = .error error)) ∨
      (plan.Ending run.tree (exchanges history) outcome ∧ ∃ pool earlier,
        plan.Working others first (moments history) pool run.tree earlier ∧
          pool.ended? = some (.ok ())) := by
  obtain ⟨produced, cancelled, leads, stopped, whole⟩ :=
    course.concluding (ActiveRun.outcome?_eq_some_iff.mp ended)
  rcases ending_of_leads leads with ⟨silent, ⟨sign, same⟩ | failed⟩ | ⟨made, uncancelled, ending⟩
  · exact .inl ⟨silent, .inl ⟨same, stopped sign⟩⟩
  · exact .inl ⟨silent, .inr failed⟩
  · exact .inr ⟨ending, whole made uncancelled⟩

/-- A run that has come to its end and has found nothing to change, or has committed. -/
theorem ending_of_finished {result : RunOutcome}
    (course : plan.Course others first history run backends)
    (ended : run.outcome? = some (.ok result))
    (finished : result = .unchanged ∨ ∃ ready, result = .committed ready) :
    plan.Ending run.tree (exchanges history) (.ok result) ∧ ∃ pool earlier,
      plan.Working others first (moments history) pool run.tree earlier ∧
        pool.ended? = some (.ok ()) := by
  rcases course.ending ended with ⟨-, ⟨stopped, -⟩ | ⟨error, failed⟩⟩ | whole
  · cases stopped
    simp at finished
  · cases failed
  · exact whole

end Course

/-- The document as a store holds it. -/
def heldDocument : Document := DocumentStore.withToken dueDocument "1"

/-- A store that holds the document, and in which its file can be copied. -/
def heldBackends : Backends :=
  { dueBackends with documents := (DocumentStore.empty.insert dueDocument).2 }

/-- The copy of the document commits, also if it is cancelled after it has read the document. -/
theorem heldDocument_committed : ∃ history run backends,
    (copying heldDocument .standard).Course (· = ·) heldBackends history run backends ∧
      run.outcome? = some (.ok (.committed true)) := by
  have going := (@Course.start (copying heldDocument .standard) (· = ·) heldBackends).work
    (.observe _) (.internal _ _)
  have located := going.work (.call (.resolve _ _) _ _) (.called _ _ _)
  have checked := located.work (.call (.object (.bucketExists "team-a")) _ _) (.called _ _ _)
  have next := checked.work (.observe _) (.internal _ _)
  have queued := next.work (.enqueue _ _ rfl) (.internal _ _)
  have started := queued.work (.start rfl rfl (by decide)) (.internal _ _)
  have ended := started.work (.finish 0 _ (.ok ()) rfl) (.executed _ rfl)
  have handed := ended.work (.deliver _ _ _ rfl) (.delivered _ _ _ _)
  have concluding := handed.conclude rfl
  have read := @Course.call _ _ _ _ _ _ (.document (.get heldDocument.key)) _ concluding
  have timed := @Course.call _ _ _ _ _ _ .clock _ read.cancel
  have written := @Course.call _ _ _ _ _ _ (.document (.patchStatus heldDocument.key "1" _)) _ timed
  exact ⟨_, _, _, written, rfl⟩

end SyncPlan

end DatasetSync
