import DatasetSync.Proofs.Controller.Look
import DatasetSync.Proofs.Engine.Move

/-!
# What holds in every state of the engine

In every state a look stands where its exchanges have led it, and so does a run. A run has
been started for a version that was read before, and it is known at which position of which
look this was. These laws hold in all surroundings, since they only say that programs are
carried out as they are written. They are collected in `Coherent`, which every move keeps.
-/

namespace DatasetSync.Engine

/-- A run was made for a document by its origin. -/
inductive Planned (policy : Policy) (history : List Transition) (engine : Engine)
    (document : Document) (plan : SyncPlan) : RunOrigin → Prop
  | look {look : Nat} {stage : LookStage} {trail : List (Exchange Controls)}
      {next : Except SyncError RunOutcome → Controlling (Except ReconcileError Next)}
      (present : engine.looks[look]? = some ⟨document, stage⟩)
      (past : trail <+: exchanges look history)
      (leads : (policy.reconcile document).Leads trail (.ask (.sync plan) next)) :
      Planned policy history engine document plan (.look look)
  | launched {look : Nat} {stage : LookStage} {trail : List (Exchange Controls)} {key : String}
      {id : RunId} {next : RunId → Controlling (Except ReconcileError Next)}
      (present : engine.looks[look]? = some ⟨document, stage⟩)
      (past : trail <+: exchanges look history)
      (leads : (policy.reconcile document).Leads trail (.ask (.launch key plan) next)) :
      Planned policy history engine document plan (.launched key id)
  | copy (sizing : Pool.Sizing) (same : plan = .copying document sizing) :
      Planned policy history engine document plan .alone
  | removal (deleted : FileTree) (sizing : Pool.Sizing)
      (same : plan = .removing document deleted sizing) :
      Planned policy history engine document plan .alone

/-- The engine is where its history has led it. -/
structure Coherent (policy : Policy) (history : List Transition) (engine : Engine) : Prop where
  /-- A look was begun, with a version that was read. -/
  begun : ∀ (look : Nat) (document : Document) (stage : LookStage),
    engine.looks[look]? = some ⟨document, stage⟩ →
      document ∈ engine.seen ∧ ∃ transition ∈ history, transition.event = .began look document
  /-- A look stands where its exchanges lead. -/
  follows : ∀ (look : Nat) (document : Document) (stage : LookStage),
    engine.looks[look]? = some ⟨document, stage⟩ →
      (policy.reconcile document).Leads (exchanges look history) stage.rest
  /-- A look that has not begun has asked nothing. -/
  unasked : ∀ look, engine.looks.length ≤ look → exchanges look history = []
  /-- A look that waits does so for a run of its own. -/
  waits : ∀ (look number : Nat) (document : Document) (plan : SyncPlan)
    (next : Except SyncError RunOutcome → Controlling (Except ReconcileError Next)),
    engine.looks[look]? = some ⟨document, .waiting plan number next⟩ →
      ∃ run, engine.runs[number]? = some run ∧ run.origin = .look look ∧ run.active.plan = plan
  /-- A run stands where its exchanges lead. -/
  made : ∀ (number : Nat) (run : EngineRun), engine.runs[number]? = some run →
    run.active.HasMade (runExchanges number history)
  /-- A run that has not been started has asked nothing. -/
  unmade : ∀ number, engine.runs.length ≤ number → runExchanges number history = []
  /-- A run was made for a version that was read. -/
  planned : ∀ (number : Nat) (run : EngineRun), engine.runs[number]? = some run →
    ∃ document ∈ engine.seen,
      Planned policy history engine document run.active.plan run.origin

variable {policy : Policy} {history : List Transition} {before after : Engine} {event : Event}

/-- An engine that is not at work is coherent: there are neither looks nor runs of which anything is
to be said. -/
theorem coherent_idle (backends : Backends) (registry : Registry) (seen : List Document) :
    Coherent policy [] (idle backends registry seen) := by
  constructor <;> simp [idle]

/-- A run that is not there makes no call, so that a run that starts later has an empty trail before
it. -/
theorem runExchange?_absent {number : Nat} (absent : before.runs[number]? = none) :
    (⟨before, event, after⟩ : Transition).runExchange? number = none := by
  cases event with
  | ran runner => simp [Transition.runExchange?, absent]
  | _ => rfl

/-- A run makes no call when something else moves: each move belongs to one look, one run or one
client. -/
theorem runExchange?_other {number : Nat} (other : event ≠ .ran number) :
    (⟨before, event, after⟩ : Transition).runExchange? number = none := by
  cases event with
  | ran runner =>
    have distinct : runner ≠ number := fun same => other (same ▸ rfl)
    simp [Transition.runExchange?, distinct]
  | _ => rfl

/-- The call of a run that moves, if it makes one, is the one at which it stands. -/
theorem runExchange?_own {number : Nat} {run : EngineRun}
    (found : before.runs[number]? = some run) :
    (⟨before, .ran number, after⟩ : Transition).runExchange? number =
      run.active.exchange? Backends.answer before.backends := by
  simp [Transition.runExchange?, found]

/-- A concluding call was made by a run in a move, and answered at once by the backends of that
moment. -/
theorem exists_of_mem_runExchanges {number : Nat} {exchange : Exchange Calls}
    (made : exchange ∈ runExchanges number history) :
    ∃ past transition recent, history = past ++ transition :: recent ∧
      transition.event = .ran number ∧ ∃ run next, transition.before.runs[number]? = some run ∧
        run.active.stage = .concluding (.ask exchange.request next) ∧
          (transition.before.backends.answer exchange.request).1 = exchange.answer := by
  obtain ⟨transition, member, exchanged⟩ := List.mem_filterMap.mp made
  obtain ⟨past, recent, rfl⟩ := List.append_of_mem member
  refine ⟨past, transition, recent, rfl, ?_⟩
  unfold Transition.runExchange? at exchanged
  split at exchanged
  · rename_i runner ran
    split at exchanged
    · rename_i same
      subst same
      obtain ⟨run, found, asked⟩ := Option.bind_eq_some_iff.mp exchanged
      unfold ActiveRun.exchange? at asked
      split at asked
      · rename_i call next stage
        cases asked
        exact ⟨ran, run, next, found, stage, rfl⟩
      · cases asked
    · cases exchanged
  · cases exchanged

/-- Moves keep what a run was made for: what a look has asked is only added to. -/
theorem Planned.step {document : Document} {plan : SyncPlan} {origin : RunOrigin}
    (planned : Planned policy history before document plan origin)
    (move : LookMove policy before event after.looks) :
    Planned policy (history ++ [⟨before, event, after⟩]) after document plan origin := by
  cases planned with
  | look present past leads =>
    obtain ⟨stage', present'⟩ := move.present present
    refine .look present' (past.trans ?_) leads
    rw [exchanges_concat]
    exact List.prefix_append _ _
  | launched present past leads =>
    obtain ⟨stage', present'⟩ := move.present present
    refine .launched present' (past.trans ?_) leads
    rw [exchanges_concat]
    exact List.prefix_append _ _
  | copy sizing same => exact .copy sizing same
  | removal deleted sizing same => exact .removal deleted sizing same

/-- A plan is made for the version that was read; only its status may be another one. -/
theorem Planned.document {document : Document} {plan : SyncPlan} {origin : RunOrigin}
    (planned : Planned policy history before document plan origin) :
    plan.document = { document with status := plan.document.status } := by
  cases planned with
  | look present past leads => cases Policy.looking_of_leads leads <;> rfl
  | launched present past leads =>
    cases Policy.looking_of_leads leads with
    | atLaunch living prepared last => rfl
  | copy sizing same => rw [same]; rfl
  | removal deleted sizing same => rw [same]; rfl

/-- A run that is started was made for a version that was read, by the look that waits for it or has
launched it. -/
theorem Coherent.start (coherent : Coherent policy history before) {plan : SyncPlan}
    {origin : RunOrigin} (start : RunStart before event plan origin) :
    ∃ document ∈ before.seen, Planned policy history before document plan origin := by
  cases start with
  | @synced look document plan next asking =>
    exact ⟨document, (coherent.begun look document _ asking).1,
      .look asking (List.prefix_refl _) (coherent.follows look document _ asking)⟩
  | @launched look document key plan next id asking =>
    exact ⟨document, (coherent.begun look document _ asking).1,
      .launched asking (List.prefix_refl _) (coherent.follows look document _ asking)⟩
  | @copy document sizing seen => exact ⟨document, seen, .copy sizing rfl⟩
  | @removal document deleted sizing seen => exact ⟨document, seen, .removal deleted sizing rfl⟩

/-- A move keeps what a run is to do, where it comes from and what it has made. -/
theorem RunMove.keeps {number : Nat} {run run' : EngineRun} {trail : List (Exchange Calls)}
    (move : RunMove before number run event after run') (found : before.runs[number]? = some run)
    (made : run.active.HasMade trail) :
    run'.active.plan = run.active.plan ∧ run'.origin = run.origin ∧
      run'.active.HasMade
        (trail ++ ((⟨before, event, after⟩ : Transition).runExchange? number).toList) := by
  cases move with
  | kept retired other =>
    rw [runExchange?_other other, Option.toList_none, List.append_nil]
    exact ⟨rfl, rfl, made⟩
  | cancelled other free =>
    rw [runExchange?_other other, Option.toList_none, List.append_nil]
    exact ⟨run.active.plan_cancel, rfl, made.cancel⟩
  | moved move =>
    rw [runExchange?_own found]
    obtain ⟨same, later⟩ := made.step move
    exact ⟨same, rfl, later⟩

/-- A look that starts a run waits for the run that it has started, which is the last one in the
list. -/
theorem synced_run {look : Nat} {plan : SyncPlan}
    (move : Step policy before (.synced look plan) after) :
    ∃ run, after.runs[before.runs.length]? = some run ∧ run.origin = .look look ∧
      run.active.plan = plan := by
  cases move with
  | sync asking => exact ⟨_, List.getElem?_concat_length, rfl, rfl⟩

/-- A move leads a look along its program, by what the look has asked in the move, or leaves it
where it is. -/
theorem Coherent.follows_step (coherent : Coherent policy history before)
    (move : LookMove policy before event after.looks) {look : Nat} {document : Document}
    {stage' : LookStage} (found : after.looks[look]? = some ⟨document, stage'⟩) :
    (policy.reconcile document).Leads
      (exchanges look (history ++ [⟨before, event, after⟩])) stage'.rest := by
  rw [exchanges_concat]
  rcases move.cases found with ⟨stage, former, stays | started | answered⟩ | began
  · obtain ⟨silent, rfl⟩ := stays
    simpa [silent] using coherent.follows look document _ former
  · obtain ⟨plan, next, rfl, rfl, rfl⟩ := started
    have silent : (Event.synced look plan).exchange? look = none := rfl
    have leads := coherent.follows look document _ former
    rw [silent, Option.toList_none, List.append_nil]
    exact leads
  · obtain ⟨control, next, answer, rest, exchanged, rfl⟩ := answered
    have leads := coherent.follows look document stage former
    rw [rest] at leads
    rw [exchanged]
    exact leads.answered answer
  · obtain ⟨rfl, -, rfl, rfl⟩ := began
    rw [coherent.unasked _ (Nat.le_refl _)]
    exact .here _

/-- A look that waits after a move does so for a run of its own: it has waited before, or it has
just started the run. -/
theorem Coherent.waits_step (coherent : Coherent policy history before)
    (move : Step policy before event after) {look number : Nat} {document : Document}
    {plan : SyncPlan} {next : Except SyncError RunOutcome → Controlling (Except ReconcileError Next)}
    (found : after.looks[look]? = some ⟨document, .waiting plan number next⟩) :
    ∃ run, after.runs[number]? = some run ∧ run.origin = .look look ∧ run.active.plan = plan := by
  rcases move.lookMove.cases found with ⟨stage, former, stays | started | answered⟩ | began
  · obtain ⟨-, rfl⟩ := stays
    obtain ⟨run, present, origin, same⟩ := coherent.waits look number document plan next former
    obtain ⟨run', present', moved⟩ := move.run_present present
    obtain ⟨samePlan, sameOrigin, -⟩ := moved.keeps present (coherent.made number run present)
    exact ⟨run', present', sameOrigin.trans origin, samePlan.trans same⟩
  · obtain ⟨plan', next', rfl, rfl, same⟩ := started
    cases same
    exact synced_run move
  · obtain ⟨_, _, _, _, _, same⟩ := answered
    cases same
  · obtain ⟨-, -, -, same⟩ := began
    cases same

/-- Every move keeps the engine coherent. Each field of the invariant has its own lemma; the case
split is on whether a look or a run was there before the move or is new. -/
theorem Coherent.step (coherent : Coherent policy history before)
    (move : Step policy before event after) :
    Coherent policy (history ++ [⟨before, event, after⟩]) after := by
  have looks := move.lookMove
  refine ⟨?begun, ?follows, ?unasked, ?waits, ?made, ?unmade, ?planned⟩
  case begun =>
    intro look document stage' found
    rcases looks.cases found with ⟨stage, former, -⟩ | ⟨-, seen, began, -⟩
    · obtain ⟨seen, transition, member, began⟩ := coherent.begun look document stage former
      exact ⟨move.seen seen, transition, List.mem_append_left _ member, began⟩
    · exact ⟨move.seen seen, _, List.mem_concat_self, began⟩
  case follows =>
    intro look document stage' found
    exact coherent.follows_step looks found
  case unasked =>
    intro look outside
    obtain ⟨outside', silent⟩ := looks.silent outside
    rw [exchanges_concat, coherent.unasked look outside', silent]
    rfl
  case waits =>
    intro look number document plan next found
    exact coherent.waits_step move found
  case made =>
    intro number run' found
    rw [runExchanges_concat]
    rcases move.run_cases found with ⟨run, former, moved⟩ | ⟨rfl, other, plan, origin, -, rfl⟩
    · exact (moved.keeps former (coherent.made number run former)).2.2
    · rw [coherent.unmade _ (Nat.le_refl _), runExchange?_other other]
      exact ActiveRun.hasMade_start plan false
  case unmade =>
    intro number outside
    have absent : before.runs[number]? = none := by
      cases former : before.runs[number]? with
      | none => rfl
      | some run =>
        obtain ⟨run', present, -⟩ := move.run_present former
        have inside : number < after.runs.length := (List.getElem?_eq_some_iff.mp present).1
        omega
    rw [runExchanges_concat, coherent.unmade number (List.getElem?_eq_none_iff.mp absent),
      runExchange?_absent absent]
    rfl
  case planned =>
    intro number run' found
    rcases move.run_cases found with ⟨run, former, moved⟩ | ⟨rfl, -, plan, origin, start, rfl⟩
    · obtain ⟨document, seen, planned⟩ := coherent.planned number run former
      obtain ⟨samePlan, sameOrigin, -⟩ := moved.keeps former (coherent.made number run former)
      rw [samePlan, sameOrigin]
      exact ⟨document, move.seen seen, planned.step looks⟩
    · obtain ⟨document, seen, planned⟩ := coherent.start start
      exact ⟨document, move.seen seen, planned.step looks⟩

/-- The engine is coherent after every execution from an engine that is not at work. The induction
is on the execution. -/
theorem coherent_of_execution {backends : Backends} {registry : Registry} {seen : List Document}
    {finish : Engine}
    (execution : Execution policy (idle backends registry seen) history finish) :
    Coherent policy history finish := by
  induction execution with
  | start => exact coherent_idle backends registry seen
  | step past move ih => exact ih.step move

end DatasetSync.Engine
