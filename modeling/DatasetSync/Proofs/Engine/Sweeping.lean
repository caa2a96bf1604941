import DatasetSync.Proofs.Engine.Invariant
import DatasetSync.Proofs.Sync.Sweep

/-!
# Executions that only remove

As long as no copy run is started and no look removes objects itself, objects leave the store
by removal runs alone: an object that is missing was at a place that some run hits, and what
a run was to remove is gone once the run has come to a good end. Other clients write documents
at any time; that makes no difference to the objects.
-/

namespace DatasetSync

namespace Engine

variable {policy : Policy} {history : List Transition} {before after finish : Engine}
  {event : Event} {objects : ObjectStore}

/-- A move in which no run but a removal can be started or stopped, and in which no look
touches objects. -/
def Event.Removing : Event → Prop
  | .wrote _ | .ticked _ | .began _ _ | .synced _ _ | .ran _ | .asked _ (.sync _) _ => True
  | .asked _ (.call call) _ => call.SparesObjects
  | _ => False

/-- A place that one of the runs is to clear. -/
def Hits (engine : Engine) (place : ObjectAddress) : Prop :=
  ∃ (number : Nat) (run : EngineRun), engine.runs[number]? = some run ∧ run.active.plan.Hits place

/-- The engine has removed objects by removal runs only, since a point in time at which it
had given objects. -/
structure Swept (objects : ObjectStore) (history : List Transition) (engine : Engine) : Prop where
  /-- What is gone was at a place that a run hits, and was not refused. -/
  lost : ∃ gone, ObjectStore.Loses objects engine.backends.objects gone ∧
    ∀ place, gone place → engine.Hits place ∧ ¬ objects.Refuses place
  /-- All runs are removals of looks, and have cleared what they have carried out. -/
  runs : ∀ (number : Nat) (run : EngineRun), engine.runs[number]? = some run →
    (∃ look, run.origin = .look look) ∧ run.active.Sweeps engine.backends.objects
  /-- A removal that a look has seen ending well has cleared all its places. -/
  ended : ∀ transition ∈ history, ∀ look plan outcome,
    transition.event = .asked look (.sync plan) (.ok outcome) →
      ∀ place, plan.Hits place → engine.backends.objects.Cleared place

/-- An engine that is not at work has removed nothing. -/
theorem swept_idle (backends : Backends) (registry : Registry) (seen : List Document) :
    Swept backends.objects [] (idle backends registry seen) where
  lost := ⟨_, .logged backends.objects backends.objects.log, fun _ impossible => impossible.elim⟩
  runs := by simp [idle]
  ended := by simp

/-- In such a move objects are lost only at places that runs hit, and none that the store refuses to
remove. -/
theorem Swept.loses (swept : Swept objects history before)
    (coherent : Coherent policy history before) (move : Step policy before event after)
    (removing : event.Removing) :
    ∃ gone, ObjectStore.Loses before.backends.objects after.backends.objects gone ∧
      ∀ place, gone place → before.Hits place ∧ ¬ before.backends.objects.Refuses place := by
  have unchanged : ∃ gone, ObjectStore.Loses before.backends.objects before.backends.objects gone ∧
      ∀ place, gone place → before.Hits place ∧ ¬ before.backends.objects.Refuses place :=
    ⟨_, .logged _ before.backends.objects.log, fun _ impossible => impossible.elim⟩
  cases move with
  | write | tick | begin | sync | resume => exact unchanged
  | read | launch | stop | await | retire | scheduleCopy | scheduleRemoval | cancel =>
    cases removing
  | @call look document call next asking =>
    have spares : call.SparesObjects := removing
    exact ⟨_, spares.loses before.backends, fun _ impossible => impossible.elim⟩
  | @run number run active backends found move =>
    obtain ⟨-, sweeps⟩ := swept.runs number run found
    obtain ⟨gone, loses, hits⟩ := sweeps.thins (coherent.made number run found) move
    refine ⟨gone, loses, fun place lost => ?_⟩
    obtain ⟨hit, allowed⟩ := hits place lost
    exact ⟨⟨number, run, found, hit⟩, allowed⟩

/-- A run that a look starts and waits for is a removal. -/
theorem Coherent.removes_of_sync (coherent : Coherent policy history before) {look : Nat}
    {document : Document} {plan : SyncPlan}
    {next : Except SyncError RunOutcome → Controlling (Except ReconcileError Next)}
    (asking : before.looks[look]? = some ⟨document, .asking (.ask (.sync plan) next)⟩) :
    plan.mode = .remove := by
  have leads := coherent.follows look document _ asking
  generalize exchanges look history = trail at leads
  cases Policy.looking_of_leads leads <;> rfl

/-- A place that a run is to clear stays one, since runs never change their plans. -/
theorem Hits.step {place : ObjectAddress} (hit : before.Hits place)
    (coherent : Coherent policy history before) (move : Step policy before event after) :
    after.Hits place := by
  obtain ⟨number, run, found, hit⟩ := hit
  obtain ⟨run', found', moved⟩ := move.run_present found
  obtain ⟨samePlan, -, -⟩ := moved.keeps found (coherent.made number run found)
  rw [← samePlan] at hit
  exact ⟨number, run', found', hit⟩

/-- Every such move keeps the law that objects leave by removal runs only. -/
theorem Swept.step (swept : Swept objects history before)
    (coherent : Coherent policy history before) (move : Step policy before event after)
    (removing : event.Removing) :
    Swept objects (history ++ [⟨before, event, after⟩]) after := by
  obtain ⟨gone, lost, hits⟩ := swept.lost
  obtain ⟨gone', loses, hits'⟩ := swept.loses coherent move removing
  refine ⟨⟨_, lost.trans loses, ?lost⟩, ?runs, ?ended⟩
  case lost =>
    rintro place (former | now)
    · obtain ⟨hit, allowed⟩ := hits place former
      exact ⟨hit.step coherent move, allowed⟩
    · obtain ⟨hit, allowed⟩ := hits' place now
      rw [lost.refuses place] at allowed
      exact ⟨hit.step coherent move, allowed⟩
  case runs =>
    intro number run' found
    rcases move.run_cases found with ⟨run, former, moved⟩ | ⟨rfl, -, plan, origin, start, rfl⟩
    · obtain ⟨⟨look, waited⟩, sweeps⟩ := swept.runs number run former
      cases moved with
      | kept retired other => exact ⟨⟨look, waited⟩, sweeps.loses loses⟩
      | cancelled other free => exact absurd waited (free look)
      | moved moving =>
        exact ⟨⟨look, waited⟩, sweeps.step (coherent.made number run former) moving⟩
    · cases start with
      | @synced look document plan next asking =>
        exact ⟨⟨look, rfl⟩,
          ActiveRun.sweeps_start (coherent.removes_of_sync asking) after.backends.objects⟩
      | launched | copy | removal => cases removing
  case ended =>
    intro transition member look plan outcome ended place hit
    rcases List.mem_append.mp member with former | last
    · exact loses.cleared (swept.ended transition former look plan outcome ended place hit)
    · cases List.mem_singleton.mp last
      cases ended
      cases move with
      | @resume _ number document _ next run _ waiting found ended =>
        obtain ⟨run', found', -, samePlan⟩ := coherent.waits look number document plan next waiting
        rw [found] at found'
        cases found'
        obtain ⟨-, sweeps⟩ := swept.runs number run found
        rw [← samePlan] at hit
        exact sweeps.cleared ended hit

/-- After an execution of such moves objects have left by removal runs only. -/
theorem Execution.swept {backends : Backends} {registry : Registry} {seen : List Document}
    (execution : Execution policy (idle backends registry seen) history finish)
    (removing : ∀ transition ∈ history, transition.event.Removing) :
    Swept backends.objects history finish := by
  induction execution with
  | start => exact swept_idle backends registry seen
  | step past move ih =>
    have former := ih fun transition member => removing transition (List.mem_append_left _ member)
    exact former.step (coherent_of_execution past) move (removing _ List.mem_concat_self)

end Engine

end DatasetSync
