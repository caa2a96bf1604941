import DatasetSync.Proofs.Store.Objects
import DatasetSync.Proofs.Sync.Copies
import DatasetSync.Sync.Step

/-!
# The history of a run

While the pool of a run is at work, its moves and those of others follow each other in any
order. The history of a run lists its own moves, each with the surroundings that it met. What
the run knows in the end is read off its history: which calls its jobs have made and how they
were answered, which completions were handed over and when, and from these its tree.

The run that is described here is not cancelled. Nothing is assumed of the objects, of what the
stores refuse, of the limits of the pool, or of what others do in between.
-/

namespace DatasetSync

/-- A move of the pool of a run, and the surroundings in which it was made. -/
structure Moment where
  backends : Backends
  event : Pool.Event SyncJob (Except StorageError Unit)

/-- A job that was carried out: the surroundings that it met, and how it ended. -/
structure Attempt where
  backends : Backends
  job : SyncJob
  result : Except StorageError Unit

/-- No move of a run cancels its pool: that happens to it. -/
theorem ActiveRun.Effect.inside {answer : (call : Call) → Backends → call.Answer × Backends}
    {plan : SyncPlan} {event : Pool.Event SyncJob (Except StorageError Unit)}
    {before after : Backends × FileTree} (effect : Effect answer plan event before after) :
    event ≠ .cancelled := by
  rintro rfl
  cases effect

namespace SyncPlan

open Pool

/-- The pool of a run that is not cancelled is at work after a history of moves, oldest first;
between these moves others change the surroundings, which at first were given ones. -/
inductive Working (plan : SyncPlan) (others : Backends → Backends → Prop) (first : Backends) :
    List Moment → SyncPool → FileTree → Backends → Prop
  | start : Working plan others first [] (.initial plan.produce false) plan.document.files first
  | work {history : List Moment} {pool pool' : SyncPool} {tree tree' : FileTree}
      {backends backends' : Backends} {event : Event SyncJob (Except StorageError Unit)}
      (past : Working plan others first history pool tree backends)
      (move : Step plan.sizing pool event pool')
      (effect : ActiveRun.Effect Backends.answer plan event (backends, tree)
        (backends', tree')) :
      Working plan others first (history ++ [⟨backends, event⟩]) pool' tree' backends'
  | change {history : List Moment} {pool : SyncPool} {tree : FileTree}
      {backends backends' : Backends} (past : Working plan others first history pool tree backends)
      (change : others backends backends') :
      Working plan others first history pool tree backends'

/-- The completions that were handed over, each with the time that the clock showed. -/
def completions (history : List Moment) : List Completion :=
  history.filterMap fun moment => moment.event.delivery?.map fun (job, result) =>
    ⟨job, result, moment.backends.now⟩

/-- The jobs that were carried out. -/
def attempts (history : List Moment) : List Attempt :=
  history.filterMap fun moment => moment.event.execution?.map fun (job, result) =>
    ⟨moment.backends, job, result⟩

variable {plan : SyncPlan} {others : Backends → Backends → Prop} {history : List Moment}
  {pool pool' : SyncPool} {tree : FileTree} {first backends backends' : Backends} {job : SyncJob}
  {result : Except StorageError Unit} {moment : Moment}

/-- One more moment adds its completion, if one was handed over in it; its time is that of the
surroundings. -/
theorem completions_append : completions (history ++ [moment]) =
    completions history ++ (moment.event.delivery?.map fun (job, result) =>
      ⟨job, result, moment.backends.now⟩).toList :=
  filterMap_snoc _ history moment

/-- One more moment adds its attempt, if a job was carried out in it. -/
theorem attempts_append : attempts (history ++ [moment]) =
    attempts history ++ (moment.event.execution?.map fun (job, result) =>
      ⟨moment.backends, job, result⟩).toList :=
  filterMap_snoc _ history moment

namespace Working

/-- The pool of a run goes through states that a pool can reach, and is not cancelled. -/
theorem reachable (working : plan.Working others first history pool tree backends) :
    Reachable plan.sizing (.initial plan.produce false) pool ∧ pool.cancelled = false := by
  induction working with
  | start => exact ⟨.start, rfl⟩
  | change past change ih => exact ih
  | work past move effect ih =>
    refine ⟨ih.1.step move, ?_⟩
    cases move with
    | cancel => cases effect
    | enqueue => rfl
    | refuse => exact ih.2
    | call | observe | start | finish | deliver | discard => exact ih.2

/-- The tree of a run is what the completions that were handed over make of the first one. -/
theorem tree_eq (working : plan.Working others first history pool tree backends) :
    tree = recordAll plan.document.datasetName (completions history) plan.document.files := by
  induction working with
  | start => rfl
  | change past change ih => exact ih
  | work past move effect ih =>
    rw [completions_append]
    cases effect with
    | delivered job result state tree =>
      rw [recordAll_append, ← ih]
      rfl
    | internal | called | executed => simpa [Event.delivery?] using ih

/-- The completions that were handed over are those on the floor, in their order. -/
theorem delivered (working : plan.Working others first history pool tree backends) :
    (completions history).map (fun completion => (completion.job, completion.result)) =
      pool.floor.delivered := by
  induction working with
  | start => rfl
  | change past change ih => exact ih
  | @work history pool pool' tree tree' backends backends' event past move effect ih =>
    rw [completions_append, List.map_append, ih, move.delivered]
    cases event.delivery? <;> rfl

/-- The jobs that were carried out are those on the floor, each with its result. -/
theorem executed (working : plan.Working others first history pool tree backends) :
    (attempts history).map (fun attempt => (attempt.job, attempt.result)) =
      pool.floor.executed := by
  induction working with
  | start => rfl
  | change past change ih => exact ih
  | @work history pool pool' tree tree' backends backends' event past move effect ih =>
    rw [attempts_append, List.map_append, ih, move.executed]
    cases event.execution? <;> rfl

/-- A job that was carried out was accepted, and so it is one that the producer has made. -/
theorem accepted_of_attempt (working : plan.Working Ticks first history pool tree backends)
    {attempt : Attempt} (attempted : attempt ∈ attempts history) :
    attempt.job ∈ pool.floor.accepted := by
  obtain ⟨reachable, -⟩ := working.reachable
  obtain ⟨conserved, -⟩ := reachable.honors plan.delivers_produce
  have executed : (attempt.job, attempt.result) ∈ pool.floor.executed := by
    rw [← working.executed]
    exact List.mem_map_of_mem attempted
  refine conserved.mem_iff.mpr ?_
  rw [Floor.executed, List.mem_append] at executed
  rcases executed with delivered | awaiting
  · have done := List.mem_map_of_mem (f := Prod.fst) delivered
    simp [Floor.stations, done]
  · have done := List.mem_map_of_mem (f := Prod.fst) awaiting
    simp [Floor.stations, done]

/-- Each completion that was handed over goes back to a job that was carried out, and tells how that
has ended. -/
theorem attempt_of_completion (working : plan.Working others first history pool tree backends)
    {completion : Completion} (handed : completion ∈ completions history) :
    ∃ attempt ∈ attempts history,
      attempt.job = completion.job ∧ attempt.result = completion.result := by
  have delivered : (completion.job, completion.result) ∈ pool.floor.delivered := by
    rw [← working.delivered]
    exact List.mem_map_of_mem handed
  have executed : (completion.job, completion.result) ∈
      (attempts history).map fun attempt => (attempt.job, attempt.result) := by
    rw [working.executed]
    exact List.mem_append_left _ delivered
  obtain ⟨attempt, attempted, same⟩ := List.mem_map.mp executed
  exact ⟨attempt, attempted, Prod.mk.inj same⟩

/-- A job ends as its one call is answered, in the surroundings in which it was carried out. -/
theorem answered (working : plan.Working others first history pool tree backends) :
    ∀ attempt ∈ attempts history,
      (Calling.perform Backends.answer attempt.job.perform attempt.backends).1 =
        attempt.result := by
  induction working with
  | start => simp [attempts]
  | change past change ih => exact ih
  | work past move effect ih =>
    intro attempt member
    rw [attempts_append] at member
    rcases List.mem_append.mp member with former | new
    · exact ih attempt former
    · cases effect with
      | executed tree performed =>
        obtain rfl := List.mem_singleton.mp new
        exact congrArg Prod.fst performed
      | internal | called | delivered => cases new

end Working

/-- The call of a job that copies: one copy from its source to its destination, and nothing
besides. -/
theorem perform_copy {source : ObjectAddress} (copies : job.source = some source) :
    Calling.perform Backends.answer job.perform backends =
      ((backends.objects.answer (.copyObject job.destination source)).1,
        { backends with
          objects := (backends.objects.answer (.copyObject job.destination source)).2 }) := by
  rw [SyncJob.perform, copies]
  rfl

/-- Every job that is carried out in a copy copies something: its group was located, so that it has
a source. -/
theorem copies_of_accepted (copies : plan.mode = .copy)
    (reachable : Reachable plan.sizing (.initial plan.produce false) pool)
    (accepted : job ∈ pool.floor.accepted) : ∃ source, job.source = some source := by
  obtain ⟨i, j, group, file, location, -, -, located, made⟩ :=
    (reachable.accepted plan.produce_makes).2 job accepted
  obtain ⟨place, rfl⟩ := located.isSome copies
  obtain ⟨-, -, rfl⟩ := jobFor?_eq_some_iff.mp made
  exact ⟨_, rfl⟩

/-- A job that is carried out in a copy was accepted, and its one call copies something. -/
theorem executes_copy {result : Except StorageError Unit} (copies : plan.mode = .copy)
    (reachable : Reachable plan.sizing (.initial plan.produce false) pool)
    (move : Step plan.sizing pool (.executed job result) pool')
    (performed : Calling.perform Backends.answer job.perform backends = (result, backends')) :
    job ∈ pool.floor.accepted ∧ ∃ source, job.source = some source ∧
      ((backends.objects.answer (.copyObject job.destination source)).1,
        { backends with
          objects := (backends.objects.answer (.copyObject job.destination source)).2 }) =
        (result, backends') := by
  obtain ⟨conserved, -⟩ := reachable.honors plan.delivers_produce
  have accepted := move.execution_accepted conserved
  obtain ⟨source, copied⟩ := copies_of_accepted copies reachable accepted
  exact ⟨accepted, source, copied, (perform_copy copied).symm.trans performed⟩

/-- No move of a copy takes an object away, and a job that ends well has put its object there. -/
theorem Working.holds_step {tree' : FileTree} {event : Event SyncJob (Except StorageError Unit)}
    (copies : plan.mode = .copy) (working : plan.Working others first history pool tree backends)
    (move : Step plan.sizing pool event pool')
    (effect : ActiveRun.Effect Backends.answer plan event (backends, tree) (backends', tree')) :
    (∀ place, backends.objects.Holds place → backends'.objects.Holds place) ∧
      ∀ job, event = .executed job (.ok ()) → backends'.objects.Holds job.destination := by
  obtain ⟨reachable, -⟩ := working.reachable
  cases effect with
  | internal => exact ⟨fun place held => held, fun job impossible => by cases impossible⟩
  | delivered => exact ⟨fun place held => held, fun job impossible => by cases impossible⟩
  | called call =>
    refine ⟨fun place held => ?_, fun job impossible => by cases impossible⟩
    have within := (reachable.accepted plan.produce_within).1
    cases move with
    | call call next answer =>
      exact ((within.1.2.loses backends).holds place).mpr ⟨held, not_false⟩
  | @executed job result before after tree performed =>
    obtain ⟨-, source, -, answered⟩ := executes_copy copies reachable move performed
    cases answered
    have law := backends.objects.holds_copyObject job.destination source
    refine ⟨fun place held => (law place).mpr (.inl held), ?_⟩
    intro other same
    obtain ⟨rfl, ok⟩ := Event.executed.inj same
    exact (law job.destination).mpr (.inr ⟨ok, rfl⟩)

/-- If nobody else removes objects, what was copied well stays where it is: the other calls of a
copy take nothing away. -/
theorem Working.holds (copies : plan.mode = .copy)
    (working : plan.Working others first history pool tree backends)
    (kept : ∀ before after, others before after →
      ∀ place, before.objects.Holds place → after.objects.Holds place) :
    ∀ attempt ∈ attempts history, attempt.result = .ok () →
      backends.objects.Holds attempt.job.destination := by
  induction working with
  | start => simp [attempts]
  | change past change ih =>
    intro attempt member ok
    exact kept _ _ change _ (ih attempt member ok)
  | work past move effect ih =>
    obtain ⟨stays, put⟩ := past.holds_step copies move effect
    intro attempt member ok
    rw [attempts_append] at member
    rcases List.mem_append.mp member with former | new
    · exact stays _ (ih attempt former ok)
    · cases effect with
      | @executed job result =>
        obtain rfl := List.mem_singleton.mp new
        exact put job (congrArg _ ok)
      | internal | called | delivered => cases new

end SyncPlan

end DatasetSync
