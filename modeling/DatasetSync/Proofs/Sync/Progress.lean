import DatasetSync.Proofs.Sync.Conclusion
import DatasetSync.Proofs.Sync.Handover
import DatasetSync.Sync.Step

/-!
# How far a run has come

While its pool is at work a run has made no concluding call, and its producer spares the
documents. After that the run follows the program that concludes it. Both is kept by every
move of the run and by its cancellation, whoever answers its calls. Hence a run touches the
document store only while it is being concluded.
-/

namespace DatasetSync

/-- The store after a call of the engine, if there is one. -/
def DocumentStore.afterCall (store : DocumentStore) : Option DocumentCall → DocumentStore
  | some call => (store.answer call).2
  | none => store

/-- A call that spares the documents leaves them as they are, however it is answered. -/
theorem Call.SparesDocuments.answer {call : Call} (spares : call.SparesDocuments)
    (backends : Backends) : (backends.answer call).2.documents = backends.documents := by
  cases call with
  | document made => exact absurd rfl (spares made)
  | object made => rfl
  | resolve source fallback => rfl
  | clock => rfl

/-- A program of calls that spare the documents leaves them as they are. The induction is on the
program. -/
theorem Calling.perform_spares {α : Type} {program : Calling α}
    (spares : program.AsksOnly Call.SparesDocuments) (backends : Backends) :
    (Calling.perform Backends.answer program backends).2.documents = backends.documents := by
  induction program generalizing backends with
  | done value => rfl
  | ask call next ih =>
    exact (ih (backends.answer call).1 (spares.2 _) (backends.answer call).2).trans
      (spares.1.answer backends)

/-- A job spares the documents: its one call copies or removes an object. -/
theorem SyncJob.perform_spares (job : SyncJob) : job.perform.AsksOnly Call.SparesDocuments := by
  unfold SyncJob.perform
  split <;> exact ⟨by simp [Call.SparesDocuments], fun _ => trivial⟩

namespace ActiveRun

variable {σ : Type}

/-- The concluding call that a run makes if it moves, and the answer to it. -/
def exchange? (answer : (call : Call) → σ → call.Answer × σ) (run : ActiveRun) (state : σ) :
    Option (Exchange Calls) :=
  match run.stage with
  | .concluding (.ask call _) => some ⟨call, (answer call state).1⟩
  | _ => none

/-- A run has made a list of concluding calls. -/
inductive HasMade (run : ActiveRun) : List (Exchange Calls) → Prop
  | working {pool : SyncPool} (stage : run.stage = .working pool)
      (within : pool.producer.AsksOnly (Pool.Production.Within run.plan.HasJob)) : HasMade run []
  | concluding {trail : List (Exchange Calls)} {rest : Calling (Except SyncError RunOutcome)}
      {tree : FileTree} {produced : Except SyncError Unit} {cancelled : Bool}
      (stage : run.stage = .concluding rest)
      (leads : (run.plan.conclude tree produced cancelled).Leads trail rest) : HasMade run trail

/-- A run has ended when nothing is left of its conclusion but the outcome. -/
theorem outcome?_eq_some_iff {run : ActiveRun} {outcome : Except SyncError RunOutcome} :
    run.outcome? = some outcome ↔ run.stage = .concluding (.done outcome) := by
  unfold outcome?
  constructor
  · intro ended
    split at ended
    · rename_i stage
      cases ended
      exact stage
    · cases ended
  · intro stage
    rw [stage]

/-- A run that is being concluded stands at one of the positions of a conclusion, for the tree that
its pool has left. -/
theorem HasMade.position {run : ActiveRun} {trail : List (Exchange Calls)}
    {rest : Calling (Except SyncError RunOutcome)} (made : run.HasMade trail)
    (stage : run.stage = .concluding rest) : ∃ tree, run.plan.Concluding tree trail rest := by
  cases made with
  | working stage' within =>
    rw [stage] at stage'
    cases stage'
  | @concluding _ _ tree _ _ stage' leads =>
    rw [stage] at stage'
    cases stage'
    exact ⟨tree, SyncPlan.concluding_of_leads leads⟩

/-- A run that has committed has written its status as the last thing it did, under the
token of the version that it was made for. -/
theorem HasMade.committed {run : ActiveRun} {trail : List (Exchange Calls)}
    (made : run.HasMade trail) {ready : Bool}
    (outcome : run.outcome? = some (.ok (.committed ready))) :
    ∃ token status, run.plan.document.versionToken = some token ∧
      run.plan.writing token status ∈ trail := by
  obtain ⟨tree, position⟩ := made.position (outcome?_eq_some_iff.mp outcome)
  cases position with
  | @committed latest token now _ accepts =>
    refine ⟨token, SyncPlan.commitStatus latest.status tree now, accepts.snapshot, ?_⟩
    exact List.mem_cons_of_mem _ (List.mem_cons_of_mem _ List.mem_cons_self)
  | ended uncommitted => exact absurd rfl (uncommitted ready)

/-- A run that is about to start has made no concluding call, cancelled or not. -/
theorem hasMade_start (plan : SyncPlan) (cancelled : Bool) : (start plan cancelled).HasMade [] :=
  .working rfl plan.produce_within

/-- To cancel a run does not change its plan; a cancelled run still knows its document and its
groups. -/
@[simp] theorem plan_cancel (run : ActiveRun) : run.cancel.plan = run.plan := by
  unfold cancel
  split <;> rfl

/-- Cancellation is no call: the run has made the calls that it had made before. -/
theorem HasMade.cancel {run : ActiveRun} {trail : List (Exchange Calls)}
    (made : run.HasMade trail) : run.cancel.HasMade trail := by
  cases made with
  | working stage within =>
    refine .working (by rw [ActiveRun.cancel, stage]) ?_
    rw [plan_cancel]
    exact within
  | concluding stage leads =>
    have same : run.cancel = run := by rw [ActiveRun.cancel, stage]
    rw [same]
    exact .concluding stage leads

/-- A move carries out the plan of the run, and makes at most one concluding call, which goes on
with those that were made. -/
theorem HasMade.step {answer : (call : Call) → σ → call.Answer × σ} {run run' : ActiveRun}
    {state state' : σ} {trail : List (Exchange Calls)} (made : run.HasMade trail)
    (move : Step answer (run, state) (run', state')) :
    run'.plan = run.plan ∧ run'.HasMade (trail ++ (exchange? answer run state).toList) := by
  cases move with
  | work move effect =>
    cases made with
    | working stage within =>
      cases stage
      exact ⟨rfl, .working rfl (move.producer_asks within)⟩
    | concluding stage leads => cases stage
  | conclude tree state ended =>
    cases made with
    | working stage within => exact ⟨rfl, .concluding rfl (.here _)⟩
    | concluding stage leads => cases stage
  | call call next tree state =>
    cases made with
    | working stage within => cases stage
    | concluding stage leads =>
      cases stage
      exact ⟨rfl, .concluding rfl (leads.answered _)⟩

/-- The call on the document store that a run makes if it moves. -/
def documentCall? (run : ActiveRun) : Option DocumentCall :=
  match run.stage with
  | .concluding (.ask (.document call) _) => some call
  | _ => none

/-- A move of a run does to the documents what its call does, if it makes one, and nothing
else. -/
theorem HasMade.documents {run run' : ActiveRun} {backends backends' : Backends}
    {trail : List (Exchange Calls)} (made : run.HasMade trail)
    (move : Step Backends.answer (run, backends) (run', backends')) :
    backends'.documents = backends.documents.afterCall run.documentCall? := by
  cases move with
  | work move effect =>
    cases made with
    | concluding stage leads => cases stage
    | working stage within =>
      cases stage
      cases effect with
      | internal => rfl
      | called call =>
        cases move with
        | call call next answer => exact Call.SparesDocuments.answer within.1.1 backends
      | @executed job result _ _ _ performed =>
        have kept := Calling.perform_spares job.perform_spares backends
        rw [performed] at kept
        exact kept
      | delivered => rfl
  | conclude tree state ended =>
    cases made with
    | working stage within => rfl
    | concluding stage leads => cases stage
  | call call next tree state => cases call <;> rfl

end ActiveRun

end DatasetSync
