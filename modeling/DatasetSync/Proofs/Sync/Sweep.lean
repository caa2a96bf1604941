import DatasetSync.Proofs.Pool.Stations
import DatasetSync.Proofs.Store.Objects
import DatasetSync.Proofs.Sync.Progress

/-!
# What a removal run has removed

A removal run that nobody cancels takes away nothing but the places of its files, and when it
has come to its end without giving up, it has taken all of them away. A place that the store
refuses to clear keeps its object; the run does not give up for that reason.
-/

namespace DatasetSync

/-- There is no object at a place, or the store does not remove it. -/
def ObjectStore.Cleared (store : ObjectStore) (place : ObjectAddress) : Prop :=
  store.Holds place → store.Refuses place

/-- A cleared place stays cleared as long as no object is added. -/
theorem ObjectStore.Loses.cleared {before after : ObjectStore} {gone : ObjectAddress → Prop}
    (loses : Loses before after gone) {place : ObjectAddress} (cleared : before.Cleared place) :
    after.Cleared place := by
  intro present
  have former : before.Holds place := ((loses.holds place).mp present).1
  exact (loses.refuses place).mpr (cleared former)

namespace Pool

variable {J R E : Type} {sizing : Sizing} {before after : State J R E} {event : Event J R}

/-- A job that runs was owed: it was accepted, and only owed jobs are. -/
theorem State.Faithful.mem_of_running {all : List J} (faithful : before.Faithful all)
    {position : Nat} {job : J} (running : before.floor.running[position]? = some job) :
    job ∈ all := by
  have present : job ∈ before.floor.running := List.mem_of_getElem? running
  have member : job ∈ before.floor.stations := by simp [Floor.stations, present]
  have accepted : job ∈ before.floor.accepted := faithful.conserved.mem_iff.mpr member
  exact faithful.accepted.subset accepted

/-- A job that was carried out was carried out before, or is carried out in this move. -/
theorem Step.executed_cases (move : Step sizing before event after) {done : J × R}
    (executed : done ∈ after.floor.executed) :
    done ∈ before.floor.executed ∨ event = .executed done.1 done.2 := by
  cases move with
  | call | observe | enqueue | refuse | discard | cancel => exact .inl executed
  | start going idle waiting =>
    refine .inl ?_
    unfold Floor.start at executed
    split at executed <;> exact executed
  | finish position job result running =>
    simp only [Floor.finish, running, Floor.executed, List.mem_append, List.mem_singleton]
      at executed
    rcases executed with delivered | awaiting | rfl
    · exact .inl (List.mem_append_left _ delivered)
    · exact .inl (List.mem_append_right _ awaiting)
    · exact .inr rfl
  | deliver job result rest first =>
    refine .inl ?_
    simpa [Floor.deliver, Floor.executed, first] using executed

/-- A pool is cancelled only from outside: none of its own moves sets or clears the mark. -/
theorem Step.cancelled_eq (move : Step sizing before event after) (inside : event ≠ .cancelled) :
    after.cancelled = before.cancelled := by
  cases move with
  | cancel => exact absurd rfl inside
  | _ => rfl

end Pool

namespace SyncPlan

variable {plan : SyncPlan}

/-- The jobs of a removal remove, each by one call at its own place. -/
theorem perform_of_mem_removals {job : SyncJob} (member : job ∈ plan.removals) :
    job.perform = Call.removeObject job.destination := by
  obtain ⟨group, listed, made⟩ := List.mem_flatMap.mp member
  obtain ⟨file, member, made⟩ := List.mem_filterMap.mp made
  have nowhere : job.source = none := by
    unfold jobFor? at made
    split at made
    · cases made
    · split at made
      · cases made
      · cases made
        rfl
  unfold SyncJob.perform
  rw [nowhere]

/-- From one state of an object store to another, nothing was taken away but objects at
places that a plan hits and that may be cleared. -/
def Thins (plan : SyncPlan) (before after : ObjectStore) : Prop :=
  ∃ gone, ObjectStore.Loses before after gone ∧
    ∀ place, gone place → plan.Hits place ∧ ¬ before.Refuses place

/-- A call that neither copies nor removes an object takes nothing away: the store holds the same
objects before and after, whatever the removal is to hit. -/
theorem thins_of_spares (plan : SyncPlan) {call : Call} (spares : call.SparesObjects)
    (backends : Backends) : plan.Thins backends.objects (backends.answer call).2.objects :=
  ⟨_, spares.loses backends, fun _ impossible => impossible.elim⟩

/-- A job of a removal takes the object at its place away, unless that is refused, and nothing else.
In both cases the place is cleared: its object is gone, or cannot be removed. -/
theorem thins_of_performed {job : SyncJob} {result : Except StorageError Unit}
    {before after : Backends} (member : job ∈ plan.removals)
    (performed : Calling.perform Backends.answer job.perform before = (result, after)) :
    plan.Thins before.objects after.objects ∧ after.objects.Cleared job.destination := by
  rw [perform_of_mem_removals member] at performed
  have removed : (before.objects.answer (.removeObject job.destination)).2 = after.objects :=
    congrArg (fun outcome => outcome.2.objects) performed
  have loses := ObjectStore.loses_removeObject before.objects job.destination
  rw [removed] at loses
  constructor
  · refine ⟨_, loses, ?_⟩
    rintro place ⟨rfl, allowed⟩
    exact ⟨⟨job, member, rfl⟩, allowed⟩
  · intro present
    obtain ⟨-, kept⟩ := (loses.holds job.destination).mp present
    have refused : before.objects.Refuses job.destination := by
      by_contra allowed
      exact kept ⟨rfl, allowed⟩
    exact (loses.refuses job.destination).mpr refused

end SyncPlan

namespace ActiveRun

open Pool

/-- A run that was not cancelled, and that removes: what it has carried out is cleared, and
if its pool has come to a good end, all that it was to remove. -/
inductive Sweeps (run : ActiveRun) (objects : ObjectStore) : Prop
  | working {pool : SyncPool} (stage : run.stage = .working pool)
      (faithful : pool.Faithful run.plan.removals) (uncancelled : pool.cancelled = false)
      (cleared : ∀ done ∈ pool.floor.executed, objects.Cleared done.1.destination) :
      Sweeps run objects
  | failed {error : SyncError} (stage : run.stage = .concluding (.done (.error error))) :
      Sweeps run objects
  | swept {rest : Calling (Except SyncError RunOutcome)} (stage : run.stage = .concluding rest)
      (cleared : ∀ place, run.plan.Hits place → objects.Cleared place) : Sweeps run objects

/-- A removal that is about to start has carried out nothing: all of its jobs are still to come, and
its pool is empty. -/
theorem sweeps_start {plan : SyncPlan} (removes : plan.mode = .remove) (objects : ObjectStore) :
    (start plan false).Sweeps objects :=
  .working rfl (faithful_initial false (plan.owes_produce removes)) rfl (by
    simp [State.initial, Floor.executed, Floor.empty])

/-- What a run has cleared stays cleared as long as no object is added, also while others remove
objects. -/
theorem Sweeps.loses {run : ActiveRun} {before after : ObjectStore}
    {gone : ObjectAddress → Prop} (sweeps : run.Sweeps before)
    (loses : ObjectStore.Loses before after gone) : run.Sweeps after := by
  cases sweeps with
  | working stage faithful uncancelled cleared =>
    exact .working stage faithful uncancelled fun done member => loses.cleared (cleared done member)
  | failed stage => exact .failed stage
  | swept stage cleared => exact .swept stage fun place hit => loses.cleared (cleared place hit)

/-- A removal that has come to a good end has cleared all its places. -/
theorem Sweeps.cleared {run : ActiveRun} {objects : ObjectStore} {outcome : RunOutcome}
    (sweeps : run.Sweeps objects) (ended : run.outcome? = some (.ok outcome))
    {place : ObjectAddress} (hit : run.plan.Hits place) : objects.Cleared place := by
  have stage := outcome?_eq_some_iff.mp ended
  cases sweeps with
  | working stage' => rw [stage] at stage'; cases stage'
  | failed stage' => rw [stage] at stage'; cases stage'
  | swept stage' cleared => exact cleared place hit

/-- The calls by which a run is concluded neither copy nor remove an object; they concern documents
and the time. -/
theorem HasMade.spares {run : ActiveRun} {trail : List (Exchange Calls)} {call : Call}
    {next : call.Answer → Calling (Except SyncError RunOutcome)} (made : run.HasMade trail)
    (stage : run.stage = .concluding (.ask call next)) : call.SparesObjects := by
  obtain ⟨tree, position⟩ := made.position stage
  cases position <;> trivial

/-- A move of a removal takes away nothing but what it is to remove. -/
theorem Sweeps.thins {run run' : ActiveRun} {backends backends' : Backends}
    {trail : List (Exchange Calls)} (made : run.HasMade trail)
    (sweeps : run.Sweeps backends.objects)
    (move : Step Backends.answer (run, backends) (run', backends')) :
    run.plan.Thins backends.objects backends'.objects := by
  have unchanged : run.plan.Thins backends.objects backends.objects :=
    @SyncPlan.thins_of_spares run.plan .clock trivial backends
  cases move with
  | @work plan _ _ _ _ _ _ _ move effect =>
    cases effect with
    | internal => exact unchanged
    | delivered => exact unchanged
    | called call =>
      cases made with
      | concluding stage => cases stage
      | working stage within =>
        cases stage
        cases move with
        | call call next answer => exact SyncPlan.thins_of_spares _ within.1.2 backends
    | @executed job result _ _ _ performed =>
      cases sweeps with
      | failed stage => cases stage
      | swept stage => cases stage
      | working stage faithful =>
        cases stage
        cases move with
        | finish position job result running =>
          have member : job ∈ plan.removals := faithful.mem_of_running running
          exact (SyncPlan.thins_of_performed member performed).1
  | conclude tree state ended => exact unchanged
  | call call next tree state => exact SyncPlan.thins_of_spares _ (made.spares rfl) backends

/-- Every move of a removal keeps what it has cleared, and clears what it carries out. A pool that
ends well has carried out all that its producer owed, so that at its end all places are cleared. -/
theorem Sweeps.step {run run' : ActiveRun} {backends backends' : Backends}
    {trail : List (Exchange Calls)} (made : run.HasMade trail)
    (sweeps : run.Sweeps backends.objects)
    (move : Step Backends.answer (run, backends) (run', backends')) :
    run'.Sweeps backends'.objects := by
  obtain ⟨gone, loses, -⟩ := sweeps.thins made move
  have kept := sweeps.loses loses
  cases move with
  | @work plan event pool pool' tree tree' state state' move effect =>
    cases kept with
    | failed stage => cases stage
    | swept stage => cases stage
    | working stage faithful uncancelled cleared =>
      cases stage
      have inside : event ≠ .cancelled := by
        rintro rfl
        cases effect
      refine .working rfl (faithful.step move) ((move.cancelled_eq inside).trans uncancelled) ?_
      intro done executed
      rcases move.executed_cases executed with former | rfl
      · exact cleared done former
      · cases effect with
        | executed _ performed =>
          cases move with
          | finish position job result running =>
            have member : done.1 ∈ plan.removals := faithful.mem_of_running running
            exact (SyncPlan.thins_of_performed member performed).2
  | @conclude plan pool produced tree state ended =>
    cases kept with
    | failed stage => cases stage
    | swept stage => cases stage
    | working stage faithful uncancelled cleared =>
      cases stage
      cases produced with
      | error error => exact .failed rfl
      | ok =>
        refine .swept rfl ?_
        rintro place ⟨job, member, rfl⟩
        have complete := faithful.complete ended uncancelled
        obtain ⟨done, delivered, rfl⟩ := List.mem_map.mp (complete.mem_iff.mpr member)
        exact cleared done (List.mem_append_left _ delivered)
  | call call next tree state =>
    cases kept with
    | working stage => cases stage
    | failed stage => cases stage
    | swept stage cleared => exact .swept rfl cleared

end ActiveRun

end DatasetSync
