import DatasetSync.Proofs.Engine.Open
import DatasetSync.Proofs.Sync.Course

/-!
# Runs of the engine follow courses

A run of the engine goes on among looks, other runs and other clients. Seen by itself it follows a
course of its plan: its turns are the moves in which it ran, and those in which it was cancelled,
as no run is that a look waits for. What is known of all courses, whatever others do, is hence
known of all runs of the engine.
-/

namespace DatasetSync.Engine

variable {policy : Policy} {history past : List Transition} {before after start finish : Engine}
  {event : Event} {number : Nat}

/-- The run has taken a turn in one of the moves, in which it ran. -/
def Took (history : List Transition) (number : Nat) (turn : Turn) : Prop :=
  turn.deed ≠ .cancelled ∧ ∃ transition ∈ history, transition.event = .ran number ∧
    transition.before.backends = turn.before ∧ transition.after.backends = turn.after

/-- A turn that was taken stays so while moves are added, since the history only grows at its
end. -/
theorem Took.later {turn : Turn} {transition : Transition} (took : Took history number turn) :
    Took (history ++ [transition]) number turn := by
  obtain ⟨kind, former, member, rest⟩ := took
  exact ⟨kind, former, List.mem_append_left _ member, rest⟩

/-- The run follows a course of its plan, whatever others do, and each of its turns was a move in
which it ran, or it was cancelled then. -/
def Followed (history : List Transition) (engine : Engine) (number : Nat) (run : EngineRun) :
    Prop :=
  ∃ first turns, run.active.plan.Course (fun _ _ => True) first turns run.active engine.backends ∧
    ∀ turn ∈ turns, Took history number turn ∨
      (turn.deed = .cancelled ∧ ∀ look, run.origin ≠ .look look)

/-- A run that has followed a course goes on with it in every move of the engine. -/
theorem Followed.step {run run' : EngineRun} (followed : Followed history before number run)
    (move : RunMove before number run event after run') :
    Followed (history ++ [⟨before, event, after⟩]) after number run' := by
  obtain ⟨first, turns, course, known⟩ := followed
  have known' : ∀ turn ∈ turns, Took (history ++ [⟨before, event, after⟩]) number turn ∨
      (turn.deed = .cancelled ∧ ∀ look, run.origin ≠ .look look) := by
    intro turn member
    exact (known turn member).imp_left Took.later
  cases move with
  | kept => exact ⟨first, turns, course.change trivial, known'⟩
  | cancelled other free =>
    refine ⟨first, _, run.active.plan_cancel.symm ▸ course.cancel.change trivial, ?_⟩
    intro turn member
    rcases List.mem_append.mp member with former | last
    · exact known' turn former
    · obtain rfl := List.mem_singleton.mp last
      exact .inr ⟨rfl, free⟩
  | @moved after active move =>
    rcases course.step move with same | ⟨deed, kind, later⟩
    · have plan : active.plan = run.active.plan := same.plan_eq
      exact ⟨first, turns, plan.symm ▸ same, known'⟩
    · have plan : active.plan = run.active.plan := later.plan_eq
      refine ⟨first, _, plan.symm ▸ later, ?_⟩
      intro turn member
      rcases List.mem_append.mp member with former | last
      · exact known' turn former
      · obtain rfl := List.mem_singleton.mp last
        exact .inl ⟨kind, _, List.mem_concat_self, rfl, rfl, rfl⟩

/-- In a move in which a run ran, it was there and has moved. -/
theorem Step.ran_cases (move : Step policy before (.ran number) after) :
    ∃ run active, before.runs[number]? = some run ∧
      ActiveRun.Step Backends.answer (run.active, before.backends) (active, after.backends) := by
  cases move with
  | run found move => exact ⟨_, _, found, move⟩

/-- A run that is started in an open execution follows a course, in which everything else is what
others do. -/
theorem OpenExecution.followed {run : EngineRun}
    (execution : OpenExecution policy start history finish) (absent : start.runs.length ≤ number)
    (found : finish.runs[number]? = some run) : Followed history finish number run := by
  induction execution generalizing run with
  | start =>
    rw [List.getElem?_eq_none_iff.mpr absent] at found
    cases found
  | step past move ih =>
    rcases move.run_cases found with ⟨former, present, moved⟩ | ⟨-, -, plan, origin, -, rfl⟩
    · exact (ih present).step moved
    · exact ⟨_, [], .start, by simp⟩
  | change objects table past ih =>
    obtain ⟨first, turns, course, known⟩ := ih found
    exact ⟨first, turns, course.change trivial, known⟩

/-- A run that is started in an execution follows a course, as every execution is an open one. -/
theorem Execution.followed {run : EngineRun} (execution : Execution policy start history finish)
    (absent : start.runs.length ≤ number) (found : finish.runs[number]? = some run) :
    Followed history finish number run :=
  execution.open.followed absent found

end DatasetSync.Engine
