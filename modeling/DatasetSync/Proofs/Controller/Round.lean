import Mathlib.Logic.Relation
import DatasetSync.Controller.Reconcile
import DatasetSync.Proofs.Sync.Driven
import DatasetSync.Proofs.Sync.Progress
import DatasetSync.Proofs.Sync.Working

/-!
# Rounds of the controller

In a round the controller looks at the stored version of one document, and the run that the look
may launch is carried out to its end. Nobody else writes meanwhile; only time passes. The jobs
of a run are carried out in any order that the pool allows, and a round of a document that is
not there does nothing.

Between rounds no run is registered, so that a look finds none to stop. Every look and every
run can come to its end, and so can every round.
-/

namespace DatasetSync

/-- The surroundings at another time. -/
def Backends.atTime (backends : Backends) (now : Timestamp) : Backends := { backends with now }

/-- Time passes. -/
def Ticks (before after : Backends) : Prop := ∃ now, after = before.atTime now

/-- A program of calls is carried out among nobody else, while time passes. -/
inductive Performs {α : Type} : Calling α → Backends → α → Backends → Prop
  | done (value : α) (backends : Backends) (now : Timestamp) :
      Performs (.done value) backends value (backends.atTime now)
  | ask {call : Call} {next : call.Answer → Calling α} {backends after : Backends} {value : α}
      (now : Timestamp)
      (later : Performs (next ((backends.atTime now).answer call).1)
        ((backends.atTime now).answer call).2 value after) :
      Performs (.ask call next) backends value after

/-- Time may pass before a program begins, as it may before each of its calls. -/
theorem Performs.tick {α : Type} {program : Calling α} {backends after : Backends} {value : α}
    {now : Timestamp} (performs : Performs program (backends.atTime now) value after) :
    Performs program backends value after := by
  cases performs with
  | done value backends now => exact .done value _ now
  | ask now later => exact .ask now later

/-- A run moves, or time passes. -/
inductive ActiveRun.Move : ActiveRun × Backends → ActiveRun × Backends → Prop
  | step {before after : ActiveRun × Backends} (move : Step Backends.answer before after) :
      Move before after
  | tick (run : ActiveRun) (backends : Backends) (now : Timestamp) :
      Move (run, backends) (run, backends.atTime now)

/-- A plan is carried out from its start to an outcome. -/
def SyncPlan.Runs (plan : SyncPlan) (before : Backends) (outcome : Except SyncError RunOutcome)
    (after : Backends) : Prop :=
  ∃ run : ActiveRun, Relation.ReflTransGen ActiveRun.Move (.start plan false, before) (run, after) ∧
    run.outcome? = some outcome

/-- Plans are carried out one after the other. -/
inductive RunAll : List SyncPlan → Backends → Backends → Prop
  | nil (backends : Backends) : RunAll [] backends backends
  | cons {plan : SyncPlan} {plans : List SyncPlan} {outcome : Except SyncError RunOutcome}
      {before middle after : Backends} (runs : plan.Runs before outcome middle)
      (later : RunAll plans middle after) : RunAll (plan :: plans) before after

/-- A program of the controller is carried out among nobody else, and launches plans. -/
inductive Carries {α : Type} : Controlling α → Backends → α → List SyncPlan → Backends → Prop
  | done (value : α) (backends : Backends) : Carries (.done value) backends value [] backends
  | call {call : Call} {next : call.Answer → Controlling α} {backends after : Backends} {value : α}
      {launched : List SyncPlan} (now : Timestamp)
      (later : Carries (next ((backends.atTime now).answer call).1)
        ((backends.atTime now).answer call).2 value launched after) :
      Carries (.ask (.call call) next) backends value launched after
  | sync {plan : SyncPlan} {next : Except SyncError RunOutcome → Controlling α}
      {before middle after : Backends} {outcome : Except SyncError RunOutcome} {value : α}
      {launched : List SyncPlan} (runs : plan.Runs before outcome middle)
      (later : Carries (next outcome) middle value launched after) :
      Carries (.ask (.sync plan) next) before value launched after
  | launch {key : String} {plan : SyncPlan} {next : RunId → Controlling α}
      {backends after : Backends} {value : α} {launched : List SyncPlan} (id : RunId)
      (later : Carries (next id) backends value launched after) :
      Carries (.ask (.launch key plan) next) backends value (plan :: launched) after
  | stop {key : String} {next : Option RunId → Controlling α} {backends after : Backends}
      {value : α} {launched : List SyncPlan}
      (later : Carries (next none) backends value launched after) :
      Carries (.ask (.stop key) next) backends value launched after
  | await {run : RunId} {next : Unit → Controlling α} {backends after : Backends} {value : α}
      {launched : List SyncPlan} (later : Carries (next ()) backends value launched after) :
      Carries (.ask (.await run) next) backends value launched after

/-- A round of the controller for one document. -/
inductive Round (policy : Policy) (key : QualifiedName) (before after : Backends) : Prop
  | gone (absent : before.documents.get? key = none) (same : after = before)
  | looked {document : Document} {result : Except ReconcileError Next} {launched : List SyncPlan}
      {middle : Backends} (found : before.documents.get? key = some document)
      (carried : Carries (policy.reconcile document) before result launched middle)
      (finished : RunAll launched middle after)

/-- Calls that the controller carries out, and what follows them: the calls come to their end first,
with a value, and the rest of the program goes on from that value and those stores. -/
theorem Carries.calling {α β : Type} {program : Calling α} {next : α → Controlling β}
    {before after : Backends} {value : β} {launched : List SyncPlan}
    (carries : Carries ((Controlling.calling program).bind next) before value launched after) :
    ∃ reached middle, Performs program before reached middle ∧
      Carries (next reached) middle value launched after := by
  induction program generalizing before with
  | done reached => exact ⟨reached, before, .done reached before before.now, carries⟩
  | ask call inner ih =>
    cases carries with
    | call now later =>
      obtain ⟨reached, middle, performs, rest⟩ := ih _ later
      exact ⟨reached, middle, .ask now performs, rest⟩

namespace SyncPlan

open Pool Relation

variable {plan : SyncPlan} {before after : Backends} {outcome : Except SyncError RunOutcome}

/-- A run on the way to its end: it is still working, or has worked, and what it has left leads on
from its conclusion. -/
inductive Underway (plan : SyncPlan) (before : Backends) : ActiveRun × Backends → Prop
  | working {history : List Moment} {pool : SyncPool} {tree : FileTree} {after : Backends}
      (working : plan.Working Ticks before history pool tree after) :
      Underway plan before (⟨plan, tree, .working pool⟩, after)
  | concluding {history : List Moment} {pool : SyncPool} {tree : FileTree}
      {middle after : Backends} {produced : Except SyncError Unit}
      {rest : Calling (Except SyncError RunOutcome)}
      (worked : plan.Working Ticks before history pool tree middle)
      (ended : pool.ended? = some produced)
      (leads : ∀ outcome last, Performs rest after outcome last →
        Performs (plan.conclude tree produced false) middle outcome last) :
      Underway plan before (⟨plan, tree, .concluding rest⟩, after)

/-- A run that moves is still underway, whether it was a call, a completed job or the clock that
moved it. The cases are those of the steps of a run. -/
theorem Underway.move {state state' : ActiveRun × Backends} (underway : plan.Underway before state)
    (move : ActiveRun.Move state state') : plan.Underway before state' := by
  cases move with
  | tick run backends now =>
    cases underway with
    | working working => exact .working (working.change ⟨now, rfl⟩)
    | concluding worked ended leads =>
      exact .concluding worked ended fun outcome last performs => leads outcome last performs.tick
  | step move =>
    cases move with
    | work move effect =>
      cases underway with
      | working working => exact .working (working.work move effect)
    | conclude tree state ended =>
      cases underway with
      | working working =>
        refine .concluding working ended fun outcome last performs => ?_
        rwa [working.reachable.2] at performs
    | call call next tree state =>
      cases underway with
      | concluding worked ended leads =>
        exact .concluding worked ended fun outcome last performs =>
          leads outcome last (.ask state.now performs)

/-- A run that is carried out works until its pool has come to its end, and then makes the calls
that conclude it with the tree that it has. -/
theorem cases_of_moves {run : ActiveRun}
    (reached : ReflTransGen ActiveRun.Move (.start plan false, before) (run, after))
    (ended : run.outcome? = some outcome) :
    ∃ history pool middle produced, plan.Working Ticks before history pool run.tree middle ∧
      pool.ended? = some produced ∧
      Performs (plan.conclude run.tree produced false) middle outcome after := by
  have underway : plan.Underway before (run, after) := by
    generalize target : (run, after) = state at reached
    clear target
    induction reached with
    | refl => exact .working .start
    | tail _ move ih => exact ih.move move
  have stage := ActiveRun.outcome?_eq_some_iff.mp ended
  cases underway with
  | working => cases stage
  | concluding worked done leads =>
    cases stage
    exact ⟨_, _, _, _, worked, done, leads outcome after (.done outcome after after.now)⟩

/-- A plan that is carried out works until its pool has come to its end, and then makes the calls
that conclude it. -/
theorem Runs.cases (runs : plan.Runs before outcome after) :
    ∃ history pool tree middle produced, plan.Working Ticks before history pool tree middle ∧
      pool.ended? = some produced ∧
      Performs (plan.conclude tree produced false) middle outcome after := by
  obtain ⟨run, reached, ended⟩ := runs
  obtain ⟨history, pool, middle, produced, carried⟩ := cases_of_moves reached ended
  exact ⟨history, pool, run.tree, middle, produced, carried⟩

/-- The surroundings in memory, in which nobody else acts. -/
def alone : Surroundings Backends := ⟨Backends.answer, fun _ => false⟩

/-- A run that is driven among nobody else is one of the executions of its plan. -/
theorem runs_drive (plan : SyncPlan) (before : Backends) :
    plan.Runs before (plan.drive alone false before).1 (plan.drive alone false before).2 := by
  obtain ⟨run, moves, ended⟩ :=
    @drives_run Backends alone plan (fun _ => rfl) before
  exact ⟨run, moves.lift id fun _ _ move => .step move, ended⟩

/-- Carry out plans one after the other, among nobody else. -/
def driveAll : List SyncPlan → Backends → Backends
  | [], before => before
  | plan :: plans, before => driveAll plans (plan.drive alone false before).2

/-- Plans that are driven one after the other are carried out one after the other, by induction on
the plans. -/
theorem runAll_driveAll (plans : List SyncPlan) (before : Backends) :
    RunAll plans before (driveAll plans before) := by
  induction plans generalizing before with
  | nil => exact .nil before
  | cons plan plans ih => exact .cons (plan.runs_drive before) (ih _)

end SyncPlan

/-- Carry out a program of the controller among nobody else: what it comes to, the plans that it
launches, and the surroundings after it. -/
def Controlling.drive {α : Type} : Controlling α → Backends → α × List SyncPlan × Backends
  | .done value, before => (value, [], before)
  | .ask (.call call) next, before =>
    drive (next (before.answer call).1) (before.answer call).2
  | .ask (.sync plan) next, before =>
    let (outcome, middle) := plan.drive SyncPlan.alone false before
    drive (next outcome) middle
  | .ask (.launch _ plan) next, before =>
    let (value, launched, after) := drive (next (0 : Nat)) before
    (value, plan :: launched, after)
  | .ask (.stop _) next, before => drive (next none) before
  | .ask (.await _) next, before => drive (next ()) before

/-- A program that is driven is carried out, with the value, the launched plans and the surroundings
that driving it computes. -/
theorem carries_drive {α : Type} (program : Controlling α) (before : Backends) :
    Carries program before (program.drive before).1 (program.drive before).2.1
      (program.drive before).2.2 := by
  induction program generalizing before with
  | done value => exact .done value before
  | ask control next ih =>
    cases control with
    | call call => exact .call before.now (ih _ _)
    | sync plan => exact .sync (plan.runs_drive before) (ih _ _)
    | launch key plan => exact .launch 0 (ih _ _)
    | stop key => exact .stop (ih _ _)
    | await run => exact .await (ih _ _)

/-- Every program of the controller can be carried out from any surroundings. None of them waits for
something that does not come. -/
theorem exists_carries {α : Type} (program : Controlling α) (before : Backends) :
    ∃ value launched after, Carries program before value launched after :=
  ⟨_, _, _, carries_drive program before⟩

/-- Carry out a round of the controller for one document. -/
def Policy.driveRound (policy : Policy) (key : QualifiedName) (before : Backends) : Backends :=
  match before.documents.get? key with
  | none => before
  | some document =>
    let (_, launched, middle) := (policy.reconcile document).drive before
    SyncPlan.driveAll launched middle

/-- A round can be carried out: what driving it computes is the end of a round, whether the document
is there or not. -/
theorem round_driveRound (policy : Policy) (key : QualifiedName) (before : Backends) :
    Round policy key before (policy.driveRound key before) := by
  unfold Policy.driveRound
  split
  · rename_i absent
    exact .gone absent rfl
  · rename_i document found
    exact .looked found (carries_drive _ before) (SyncPlan.runAll_driveAll _ _)

/-- Every round can come to its end, so that what is said of all rounds of a document is said of at
least one. -/
theorem exists_round (policy : Policy) (key : QualifiedName) (before : Backends) :
    ∃ after, Round policy key before after :=
  ⟨_, round_driveRound policy key before⟩

end DatasetSync
