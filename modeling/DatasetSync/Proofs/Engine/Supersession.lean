import DatasetSync.Proofs.Controller.Registration
import DatasetSync.Proofs.Engine.Invariant

/-!
# What becomes of launched runs

A run that is launched is registered under the key of its document, and it stays registered until
it gives its registration back. It may lose it before that in two ways. A look at the deleted
document stops it, and then waits for its end; or a later run takes its place, and nobody waits
for it any more. Both cancel the run, so that it takes no further job from its queue; but what it
has begun it carries out.

`Tallied` collects this. A launched run that has not given its registration back is registered,
or it was superseded, or somebody waits for it; and a superseded run is cancelled.
-/

namespace DatasetSync

/-- Before its first exchange a program is left as a whole. -/
theorem Program.leads_nil_iff {interface : Interface} {α : Type}
    {program rest : Program interface α} : Leads program [] rest ↔ rest = program := by
  constructor
  · intro leads
    cases leads
    rfl
  · rintro rfl
    exact .here rest

/-- A look at a deleted document is done at once, or it first stops the run of its document. If
there is one, the look waits for it. -/
theorem Policy.reconcile_deleted {policy : Policy} {document : Document}
    (deleting : document.isDeleting = true) :
    (∃ result, policy.reconcile document = .done result) ∨
      ∃ next : Option RunId → Controlling (Except ReconcileError Next),
        policy.reconcile document = .ask (.stop document.key.toString) next ∧
          ∀ id, ∃ later : Unit → Controlling (Except ReconcileError Next),
            next (some id) = .ask (.await id) later := by
  unfold reconcile
  split
  · exact .inl ⟨_, rfl⟩
  rw [if_pos deleting, finalize_eq]
  split
  · exact .inr ⟨_, rfl, fun id => ⟨_, rfl⟩⟩
  · exact .inl ⟨_, rfl⟩

/-- A cancelled pool starts no job; those that are running may end. It stays cancelled. -/
theorem Pool.Step.winds {J R E : Type} {sizing : Sizing} {before after : State J R E}
    {event : Event J R} (move : Step sizing before event after)
    (cancelled : before.cancelled = true) :
    after.cancelled = true ∧ ∀ job ∈ after.floor.running, job ∈ before.floor.running := by
  cases move with
  | call | observe | refuse | discard => exact ⟨cancelled, fun _ member => member⟩
  | cancel => exact ⟨rfl, fun _ member => member⟩
  | enqueue => cases cancelled
  | start going => simp [State.isStopping, cancelled] at going
  | finish position job result running =>
    refine ⟨cancelled, fun other member => ?_⟩
    simp only [Floor.finish, running] at member
    exact List.mem_of_mem_eraseIdx member
  | deliver job result rest first =>
    refine ⟨cancelled, fun other member => ?_⟩
    simpa [Floor.deliver, first] using member

namespace ActiveRun

variable {σ : Type} {answer : (call : Call) → σ → call.Answer × σ} {run run' : ActiveRun}
  {state state' : σ} {jobs : SyncJob → Prop}

/-- A run that has ended makes no move. -/
theorem not_step_of_outcome {outcome : Except SyncError RunOutcome}
    (ended : run.outcome? = some outcome) : ¬ Step answer (run, state) (run', state') := by
  have stage := outcome?_eq_some_iff.mp ended
  rintro move
  cases move <;> cases stage

/-- If the pool of a run is still at work, it is cancelled, and only some of the given jobs are
running. -/
def Winds (jobs : SyncJob → Prop) (run : ActiveRun) : Prop :=
  ∀ pool, run.stage = .working pool →
    pool.cancelled = true ∧ ∀ job ∈ pool.floor.running, jobs job

/-- A run that is cancelled winds down to the jobs that are running, and to nothing if its pool has
ended. -/
theorem winds_cancel (within : ∀ pool, run.stage = .working pool →
    ∀ job ∈ pool.floor.running, jobs job) : run.cancel.Winds jobs := by
  intro pool stage
  unfold cancel at stage
  split at stage
  · rename_i former working
    cases stage
    exact ⟨rfl, within former working⟩
  · rename_i concluding
    rw [concluding] at stage
    cases stage

/-- A run that winds down goes on to do so, and its own moves add no job. -/
theorem Winds.step (winds : run.Winds jobs) (move : Step answer (run, state) (run', state')) :
    run'.Winds jobs := by
  intro pool stage
  cases move with
  | work move =>
    cases stage
    obtain ⟨cancelled, within⟩ := winds _ rfl
    obtain ⟨still, fewer⟩ := move.winds cancelled
    exact ⟨still, fun job member => within job (fewer job member)⟩
  | conclude | call => cases stage

end ActiveRun

namespace Engine

variable {policy : Policy} {history : List Transition} {before after : Engine} {event : Event}
  {key : String} {id : RunId}

/-- What a move does to the registry. -/
inductive RegistryMove (before after : Engine) : Event → Prop
  /-- Nothing. -/
  | still {event : Event} (same : after.registry = before.registry)
      (unlaunched : ∀ look key plan id, event ≠ .asked look (.launch key plan) id)
      (unstopped : ∀ look key id, event ≠ .asked look (.stop key) id) :
      RegistryMove before after event
  /-- A launched run is registered, and all runs notice that another one may be cancelled. -/
  | launched {look : Nat} {document : Document} {key : String} {plan : SyncPlan}
      {next : RunId → Controlling (Except ReconcileError Next)}
      (asking : before.looks[look]? = some ⟨document, .asking (.ask (.launch key plan) next)⟩)
      (registered : after.registry = (before.registry.register key).2)
      (runs : after.runs = before.runs.map (·.notice after.registry) ++
        [⟨.start plan false, .launched key before.registry.issued, false⟩]) :
      RegistryMove before after (.asked look (.launch key plan) before.registry.issued)
  /-- The run of a key is stopped. -/
  | stopped {look : Nat} {document : Document} {key : String}
      {next : Option RunId → Controlling (Except ReconcileError Next)}
      (asking : before.looks[look]? = some ⟨document, .asking (.ask (.stop key) next)⟩)
      (stopped : after.registry = (before.registry.stop key).2)
      (left : after.looks[look]? =
        some ⟨document, .asking (next (before.registry.running.get? key))⟩) :
      RegistryMove before after (.asked look (.stop key) (before.registry.running.get? key))
  /-- A run that has ended gives its registration back. -/
  | retired {number : Nat} {run : EngineRun} {key : String} {id : RunId}
      {outcome : Except SyncError RunOutcome} (found : before.runs[number]? = some run)
      (launched : run.origin = .launched key id) (ended : run.active.outcome? = some outcome)
      (finished : after.registry = before.registry.finish key id)
      (runs : after.runs = before.runs.set number { run with retired := true }) :
      RegistryMove before after (.retired number)

/-- Every move does one of these things to the registry. The case split is on the kind of move. -/
theorem Step.registryMove (move : Step policy before event after) :
    RegistryMove before after event := by
  cases move with
  | launch asking => exact .launched asking rfl rfl
  | @stop look document key next asking =>
    rw [Registry.stop_fst]
    refine .stopped asking rfl ?_
    have inside : look < before.looks.length := (List.getElem?_eq_some_iff.mp asking).1
    simp [withLook, withRegistry, inside]
  | retire found launched ended registered => exact .retired found launched ended rfl rfl
  | _ => exact .still rfl (by simp) (by simp)

/-- A move calls the registry once or not at all. So laws of the registry that hold for every call
hold for every move. -/
theorem Step.registry_cases (move : Step policy before event after) :
    after.registry = before.registry ∨
      ∃ demand, after.registry = before.registry.meet demand := by
  cases move.registryMove with
  | still same => exact .inl same
  | @launched _ _ key _ _ _ registered => exact .inr ⟨.register key, registered⟩
  | @stopped _ _ key _ _ stopped => exact .inr ⟨.stop key, stopped⟩
  | @retired _ _ key id _ _ _ _ finished => exact .inr ⟨.finish key id, finished⟩

/-- The registry of an engine is what a sequence of registrations, stops and reports of ends has
left. -/
theorem Execution.registry_of_demands {backends : Backends} {seen : List Document}
    {trail : List Transition} {finish : Engine}
    (execution : Execution policy (idle backends .empty seen) trail finish) :
    ∃ demands, (Registry.History.of demands).registry = finish.registry := by
  induction execution with
  | start => exact ⟨[], rfl⟩
  | step past move ih =>
    obtain ⟨demands, same⟩ := ih
    rcases move.registry_cases with still | ⟨demand, called⟩
    · exact ⟨demands, same.trans still.symm⟩
    · refine ⟨demands ++ [demand], ?_⟩
      rw [Registry.History.registry_of_concat, same, called]

/-- A move of a run, or one that it suffers, leaves it where it comes from. -/
theorem RunMove.origin {number : Nat} {run run' : EngineRun}
    (move : RunMove before number run event after run') : run'.origin = run.origin := by
  cases move <;> rfl

/-- A run that has ended stays as it is, also when it is cancelled afterwards. -/
theorem RunMove.outcome {number : Nat} {run run' : EngineRun}
    {outcome : Except SyncError RunOutcome} (move : RunMove before number run event after run')
    (ended : run.active.outcome? = some outcome) : run'.active.outcome? = some outcome := by
  cases move with
  | kept => exact ended
  | cancelled =>
    have same : run.active.cancel = run.active := by
      rw [ActiveRun.cancel, ActiveRun.outcome?_eq_some_iff.mp ended]
    exact (congrArg ActiveRun.outcome? same).trans ended
  | moved move => exact absurd move (ActiveRun.not_step_of_outcome ended)

/-- A run that winds down goes on to do so, whether it moves or suffers a move. -/
theorem RunMove.winds {jobs : SyncJob → Prop} {number : Nat} {run run' : EngineRun}
    (move : RunMove before number run event after run') (winds : run.active.Winds jobs) :
    run'.active.Winds jobs := by
  cases move with
  | kept => exact winds
  | cancelled => exact ActiveRun.winds_cancel fun pool stage => (winds pool stage).2
  | moved move => exact winds.step move

/-- A run that is noticed to be cancelled winds down to the jobs that it has running then. -/
theorem winds_notice {registry : Registry} {run : EngineRun}
    (launched : run.origin = .launched key id) (cancelled : registry.isCancelled id = true) :
    (run.notice registry).active.Winds fun _ => True := by
  simp only [EngineRun.notice, launched, cancelled, if_pos]
  exact ActiveRun.winds_cancel fun _ _ _ _ => trivial

/-- What a run notices does not give its registration back. -/
@[simp] theorem notice_retired (registry : Registry) (run : EngineRun) :
    (run.notice registry).retired = run.retired := by
  rcases notice_cases registry run with same | ⟨same, -⟩ <;> rw [same]

/-- A run gives its registration back by a move of its own, when it has ended, and every other move
leaves this as it is. -/
theorem Step.retired_cases (move : Step policy before event after) {number : Nat}
    {run run' : EngineRun} (found : before.runs[number]? = some run)
    (found' : after.runs[number]? = some run') :
    (event ≠ .retired number ∧ run'.retired = run.retired) ∨
      (event = .retired number ∧ run'.retired = true ∧
        ∃ outcome, run.active.outcome? = some outcome) := by
  have inside : number < before.runs.length := (List.getElem?_eq_some_iff.mp found).1
  have same_of : before.runs[number]? = some run' → run'.retired = run.retired := fun stays =>
    congrArg EngineRun.retired (Option.some.inj (stays.symm.trans found))
  have noticed_of : ∀ registry, (before.runs.map (·.notice registry))[number]? = some run' →
      run'.retired = run.retired := fun registry noticed => by
    rw [List.getElem?_map, found] at noticed
    obtain rfl := Option.some.inj noticed
    exact notice_retired registry run
  cases move with
  | write | tick | read | begin | call | resume | await => exact .inl ⟨by simp, same_of found'⟩
  | sync | scheduleCopy | scheduleRemoval =>
    exact .inl ⟨by simp, same_of ((List.getElem?_append_left inside).symm.trans found')⟩
  | launch asking =>
    refine .inl ⟨by simp, noticed_of _ ((List.getElem?_append_left ?_).symm.trans found')⟩
    rwa [List.length_map]
  | stop asking => exact .inl ⟨by simp, noticed_of _ found'⟩
  | @run moved runner active backends present move =>
    rcases entry_set found' with ⟨rfl, rfl⟩ | ⟨-, old⟩
    · obtain rfl := Option.some.inj (present.symm.trans found)
      exact .inl ⟨by simp, rfl⟩
    · exact .inl ⟨by simp, same_of old⟩
  | @retire retired runner key id outcome present launched ended registered =>
    rcases entry_set found' with ⟨rfl, rfl⟩ | ⟨other, old⟩
    · obtain rfl := Option.some.inj (present.symm.trans found)
      exact .inr ⟨rfl, rfl, outcome, ended⟩
    · exact .inl ⟨fun same => other (Event.retired.inj same).symm, same_of old⟩
  | @cancel cancelled runner present alone =>
    rcases entry_set found' with ⟨rfl, rfl⟩ | ⟨-, old⟩
    · obtain rfl := Option.some.inj (present.symm.trans found)
      exact .inl ⟨by simp, rfl⟩
    · exact .inl ⟨by simp, same_of old⟩

/-- A launched run after a move was there before, or the move has launched it: then it has the next
number, and the registry has it under its key. -/
theorem Step.launched_cases (move : Step policy before event after) {number : Nat}
    {run' : EngineRun} (found : after.runs[number]? = some run')
    (launched : run'.origin = .launched key id) :
    (∃ run, before.runs[number]? = some run ∧ run.origin = .launched key id ∧
      RunMove before number run event after run') ∨
      (number = before.runs.length ∧ id = before.registry.issued ∧
        after.registry = (before.registry.register key).2 ∧
          ∃ plan, run' = ⟨.start plan false, .launched key id, false⟩) := by
  rcases move.run_cases found with ⟨run, former, moved⟩ | ⟨same, -, plan, origin, start, rfl⟩
  · exact .inl ⟨run, former, moved.origin.symm.trans launched, moved⟩
  · cases launched
    cases start with
    | launched asking =>
      cases move.registryMove with
      | still same unlaunched => exact absurd rfl (unlaunched _ _ _ _)
      | launched asking registered => exact .inr ⟨same, rfl, registered, plan, rfl⟩

/-- A launch takes the place of a registered run. -/
def Transition.Supersedes (transition : Transition) (key : String) (id : RunId) : Prop :=
  ∃ look plan new, transition.event = .asked look (.launch key plan) new ∧
    transition.before.registry.running.get? key = some id

/-- A registered run has lost its place to a later one. -/
def Superseded (history : List Transition) (key : String) (id : RunId) : Prop :=
  ∃ transition ∈ history, transition.Supersedes key id

/-- A look at a document with the given key has stopped a run, and waits for its end. -/
def Awaits (engine : Engine) (key : String) (id : RunId) : Prop :=
  ∃ (look : Nat) (document : Document)
    (next : Unit → Controlling (Except ReconcileError Next)),
    engine.looks[look]? = some ⟨document, .asking (.ask (.await id) next)⟩ ∧
      document.key.toString = key

/-- A run is superseded after one more move if it was before, or if it is by this move. -/
@[simp] theorem superseded_concat {transition : Transition} :
    Superseded (history ++ [transition]) key id ↔
      Superseded history key id ∨ transition.Supersedes key id := by
  simp [Superseded, or_and_right, exists_or]

/-- What has become of the launched runs. -/
structure Tallied (history : List Transition) (engine : Engine) : Prop where
  /-- The numbers of registered, launched and superseded runs are those that were given out. -/
  registered : ∀ key id, engine.registry.running.get? key = some id →
    id < engine.registry.issued
  numbered : ∀ (number : Nat) (run : EngineRun) (key : String) (id : RunId),
    engine.runs[number]? = some run → run.origin = .launched key id →
      id < engine.registry.issued
  superseded : ∀ key id, Superseded history key id → id < engine.registry.issued
  /-- No number is given out twice. -/
  distinct : ∀ (number number' : Nat) (run run' : EngineRun) (key key' : String) (id : RunId),
    engine.runs[number]? = some run → run.origin = .launched key id →
      engine.runs[number']? = some run' → run'.origin = .launched key' id → number = number'
  /-- A launched run that has its registration is registered, or it was superseded, or somebody
  waits for it. -/
  known : ∀ (number : Nat) (run : EngineRun) (key : String) (id : RunId),
    engine.runs[number]? = some run → run.origin = .launched key id → run.retired = false →
      engine.registry.running.get? key = some id ∨ Superseded history key id ∨
        engine.Awaits key id
  /-- A superseded run winds down. -/
  halted : ∀ (number : Nat) (run : EngineRun) (key : String) (id : RunId),
    engine.runs[number]? = some run → run.origin = .launched key id →
      Superseded history key id → run.active.Winds fun _ => True
  /-- A run that has given its registration back has ended. -/
  ended : ∀ (number : Nat) (run : EngineRun), engine.runs[number]? = some run →
    run.retired = true → ∃ outcome, run.active.outcome? = some outcome

/-- An engine that is not at work has launched no runs, so that all that is said of launched runs
holds. -/
theorem tallied_idle (backends : Backends) (seen : List Document) :
    Tallied [] (idle backends .empty seen) := by
  constructor <;> simp [idle, Registry.empty, Superseded]

/-- As many numbers as before were given out, or one more. -/
theorem Step.issued_le (move : Step policy before event after) :
    before.registry.issued ≤ after.registry.issued := by
  cases move.registryMove with
  | still same => rw [same]
  | launched asking registered => simp [registered]
  | stopped asking stopped => simp [stopped]
  | retired found launched ended finished => simp [finished]

/-- Registered runs have numbers that were given out. A run that is registered after the move was so
before, or it has the number that is given out in the move. -/
theorem Tallied.registered_step (tallied : Tallied history before)
    (move : Step policy before event after)
    (present : after.registry.running.get? key = some id) : id < after.registry.issued := by
  have more := move.issued_le
  have former : before.registry.running.get? key = some id → id < after.registry.issued :=
    fun present => (tallied.registered key id present).trans_le more
  cases move.registryMove with
  | still same => exact former (same ▸ present)
  | launched asking registered =>
    rw [registered, Registry.get?_register] at present
    split at present
    · cases present
      simp [registered]
    · exact former present
  | stopped asking stopped =>
    rw [stopped, Registry.get?_stop] at present
    split at present
    · cases present
    · exact former present
  | retired found launched ended finished =>
    rw [finished, Registry.get?_finish] at present
    split at present
    · cases present
    · exact former present

/-- A look that stops the run of a key looks at a deleted document with this key. If there was a
run, the look waits for it next. -/
theorem Coherent.stops (coherent : Coherent policy history before) {look : Nat}
    {document : Document} {next : Option RunId → Controlling (Except ReconcileError Next)}
    (asking : before.looks[look]? = some ⟨document, .asking (.ask (.stop key) next)⟩) :
    document.key.toString = key ∧ document.isDeleting = true ∧
      ∀ id, ∃ later : Unit → Controlling (Except ReconcileError Next),
        next (some id) = .ask (.await id) later := by
  have leads := coherent.follows look document _ asking
  generalize exchanges look history = trail at leads
  have position := Policy.looking_of_leads leads
  simp only [LookStage.rest] at position leads
  cases position with
  | atStop deleting =>
    have whole := Program.leads_nil_iff.mp leads
    rcases @Policy.reconcile_deleted policy document deleting with ⟨result, same⟩ |
      ⟨next', same, waits⟩
    · rw [same] at whole
      cases whole
    · rw [same] at whole
      cases whole
      exact ⟨rfl, deleting, waits⟩

/-- An exchange of a look is asked by that look, and by no other event. -/
theorem Event.eq_of_exchange? {look : Nat} {exchange : Exchange Controls}
    (exchanged : event.exchange? look = some exchange) :
    event = .asked look exchange.request exchange.answer := by
  cases event with
  | asked asker control answer =>
    by_cases same : asker = look
    · subst same
      obtain rfl := Option.some.inj ((if_pos rfl).symm.trans exchanged)
      rfl
    · have impossible := (if_neg same).symm.trans exchanged
      cases impossible
  | _ => cases exchanged

/-- Nobody ceases to wait for a run before it has given its registration back. -/
theorem Awaits.step {number : Nat} {run : EngineRun} (awaits : before.Awaits key id)
    (move : Step policy before event after) (found : before.runs[number]? = some run)
    (launched : run.origin = .launched key id) (unretired : run.retired = false) :
    after.Awaits key id := by
  obtain ⟨look, document, next, waiting, own⟩ := awaits
  obtain ⟨stage', present⟩ := move.lookMove.present waiting
  rcases move.lookMove.cases present with ⟨stage, former, how⟩ | ⟨rfl, -⟩
  · rw [waiting] at former
    cases former
    rcases how with ⟨-, rfl⟩ | ⟨plan, next', impossible, -⟩ | ⟨control, next', answer, rest, asked, -⟩
    · exact ⟨look, document, next, present, own⟩
    · cases impossible
    · cases rest
      obtain rfl := Event.eq_of_exchange? asked
      cases move with
      | await asking retired =>
        have given := retired run (List.mem_of_getElem? found) key launched
        rw [unretired] at given
        cases given
  · exact absurd (List.getElem?_eq_some_iff.mp waiting).1 (Nat.lt_irrefl _)

/-- A launched run that has its registration stays known: it is the registered one of its key, or it
is superseded, or somebody waits for it. What the move does to the registry decides which of them it
is. -/
theorem Tallied.known_step {number : Nat} {run : EngineRun} (tallied : Tallied history before)
    (coherent : Coherent policy history before) (move : Step policy before event after)
    (found : before.runs[number]? = some run) (launched : run.origin = .launched key id)
    (unretired : run.retired = false) (other : event ≠ .retired number) :
    after.registry.running.get? key = some id ∨
      Superseded (history ++ [⟨before, event, after⟩]) key id ∨ after.Awaits key id := by
  rcases tallied.known number run key id found launched unretired with
    present | superseded | awaits
  · cases move.registryMove with
    | still same => exact .inl (same ▸ present)
    | @launched look _ key' plan _ asking registered =>
      by_cases own : key' = key
      · subst own
        exact .inr (.inl (superseded_concat.mpr (.inr ⟨look, plan, _, rfl, present⟩)))
      · refine .inl ?_
        rw [registered, Registry.get?_register, if_neg own, present]
    | @stopped look document key' next asking stopped left =>
      by_cases own : key' = key
      · subst own
        obtain ⟨same, -, waits⟩ := coherent.stops asking
        obtain ⟨later, waiting⟩ := waits id
        rw [present, waiting] at left
        exact .inr (.inr ⟨look, document, later, left, same⟩)
      · refine .inl ?_
        rw [stopped, Registry.get?_stop, if_neg own, present]
    | @retired number' run' key' id' _ found' launched' _ finished =>
      refine .inl ?_
      rw [finished, Registry.get?_finish, if_neg ?_, present]
      rintro ⟨rfl, own⟩
      obtain rfl := Option.some.inj (own.symm.trans present)
      exact other (congrArg Event.retired
        (tallied.distinct _ _ _ _ _ _ _ found' launched' found launched))
  · exact .inr (.inl (superseded_concat.mpr (.inl superseded)))
  · exact .inr (.inr (awaits.step move found launched unretired))

/-- A superseded run that is there winds down after the move. It was superseded before, or it is by
this move, in which it is cancelled. -/
theorem Tallied.halted_step {number : Nat} {run run' : EngineRun} (tallied : Tallied history before)
    (move : Step policy before event after) (found : before.runs[number]? = some run)
    (launched : run.origin = .launched key id) (found' : after.runs[number]? = some run')
    (moved : RunMove before number run event after run')
    (superseded : Superseded (history ++ [⟨before, event, after⟩]) key id) :
    run'.active.Winds fun _ => True := by
  rcases superseded_concat.mp superseded with former | ⟨look, plan, new, rfl, present⟩
  · exact moved.winds (tallied.halted number run key id found launched former)
  · cases move.registryMove with
    | still same unlaunched => exact absurd rfl (unlaunched _ _ _ _)
    | launched asking registered runs =>
      have inside : number < before.runs.length := (List.getElem?_eq_some_iff.mp found).1
      rw [runs, List.getElem?_append_left (by rwa [List.length_map]), List.getElem?_map, found]
        at found'
      obtain rfl := Option.some.inj found'
      refine winds_notice launched ?_
      rw [registered]
      exact Registry.isCancelled_register present

/-- Every move keeps the tally, one field after the other. A run that is launched only now was not
superseded yet. -/
theorem Tallied.step (tallied : Tallied history before) (coherent : Coherent policy history before)
    (move : Step policy before event after) :
    Tallied (history ++ [⟨before, event, after⟩]) after := by
  have more := move.issued_le
  refine ⟨?registered, ?numbered, ?superseded, ?distinct, ?known, ?halted, ?ended⟩
  case registered => exact fun key id present => tallied.registered_step move present
  case numbered =>
    intro number run' key id found launched
    rcases move.launched_cases found launched with ⟨run, former, origin, -⟩ |
      ⟨-, rfl, registered, -⟩
    · exact (tallied.numbered number run key id former origin).trans_le more
    · simp [registered]
  case superseded =>
    intro key id superseded
    rcases superseded_concat.mp superseded with former | ⟨-, -, -, -, present⟩
    · exact (tallied.superseded key id former).trans_le more
    · exact (tallied.registered key id present).trans_le more
  case distinct =>
    intro number number' run run' key key' id found launched found' launched'
    rcases move.launched_cases found launched with ⟨_, former, origin, -⟩ | ⟨rfl, fresh, -⟩ <;>
      rcases move.launched_cases found' launched' with ⟨_, former', origin', -⟩ |
        ⟨rfl, fresh', -⟩
    · exact tallied.distinct _ _ _ _ _ _ _ former origin former' origin'
    · exact absurd (tallied.numbered _ _ _ _ former origin) (fresh' ▸ Nat.lt_irrefl _)
    · exact absurd (tallied.numbered _ _ _ _ former' origin') (fresh ▸ Nat.lt_irrefl _)
    · rfl
  case known =>
    intro number run' key id found launched unretired
    rcases move.launched_cases found launched with ⟨run, former, origin, -⟩ |
      ⟨-, rfl, registered, -⟩
    · rcases move.retired_cases former found with ⟨other, same⟩ | ⟨-, retired, -⟩
      · exact tallied.known_step coherent move former origin (same ▸ unretired) other
      · rw [unretired] at retired
        cases retired
    · refine .inl ?_
      rw [registered, Registry.get?_register, if_pos rfl]
  case halted =>
    intro number run' key id found launched superseded
    rcases move.launched_cases found launched with ⟨run, former, origin, moved⟩ |
      ⟨-, rfl, -⟩
    · exact tallied.halted_step move former origin found moved superseded
    · rcases superseded_concat.mp superseded with former | ⟨-, -, -, -, present⟩
      · exact absurd (tallied.superseded _ _ former) (Nat.lt_irrefl _)
      · exact absurd (tallied.registered _ _ present) (Nat.lt_irrefl _)
  case ended =>
    intro number run' found retired
    rcases move.run_cases found with ⟨run, former, moved⟩ | ⟨-, -, plan, origin, -, rfl⟩
    · rcases move.retired_cases former found with ⟨-, same⟩ | ⟨-, -, outcome, ended⟩
      · obtain ⟨outcome, ended⟩ := tallied.ended number run former (same ▸ retired)
        exact ⟨outcome, moved.outcome ended⟩
      · exact ⟨outcome, moved.outcome ended⟩
    · cases retired

/-- What has become of the launched runs after an execution from an engine that is not at work. -/
theorem Execution.tallied {backends : Backends} {seen : List Document} {finish : Engine}
    (execution : Execution policy (idle backends .empty seen) history finish) :
    Tallied history finish := by
  induction execution with
  | start => exact tallied_idle backends seen
  | step past move ih => exact ih.step (coherent_of_execution past) move

end Engine

end DatasetSync
