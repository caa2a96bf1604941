import DatasetSync.Proofs.Controller.Purging
import DatasetSync.Proofs.Engine.Purge
import DatasetSync.Proofs.Engine.Supersession
import DatasetSync.Proofs.Sync.Sweep

/-!
# Copies that land after the purge

A look at a deleted document stops the registered run of its key and waits for its end before it
purges. It does not know of the runs that were superseded before: they are cancelled, but nobody
waits for them, and a copy that such a run has begun may land at any later time, also when the
objects of the version were removed and the document was released.

Here the looks of a document come one at a time, as a controller makes them. Then superseded runs
are the only ones of which this can happen. Of runs that are launched later nothing is said: a look
may be given an old version of a document that is gone, and launch a run for it.
-/

namespace DatasetSync

/-- Whether a look has come to its end. -/
def LookStage.hasEnded : LookStage → Bool
  | .asking (.done _) => true
  | _ => false

/-- A call that neither copies nor removes an object does not log a copy. -/
theorem Call.SparesObjects.log {call : Call} (spares : call.SparesObjects) {backends : Backends}
    {place source : ObjectAddress} : (backends.answer call).2.objects.log ≠
      backends.objects.log ++ [.copyObject place source] := by
  intro logged
  cases call with
  | object call =>
    obtain rfl := ObjectStore.eq_of_log logged
    exact spares
  | document | resolve | clock => simp [Backends.answer] at logged

/-- A run that copies an object carries out a copy that its pool has begun: the log tells the call,
and no other call of a run copies. -/
theorem ActiveRun.HasMade.copies {run run' : ActiveRun} {backends backends' : Backends}
    {trail : List (Exchange Calls)} {place source : ObjectAddress} (made : run.HasMade trail)
    (move : Step Backends.answer (run, backends) (run', backends'))
    (logged : backends'.objects.log = backends.objects.log ++ [.copyObject place source]) :
    ∃ pool, run.stage = .working pool ∧ ∃ job ∈ pool.floor.running,
      job.source = some source ∧ job.destination = place := by
  cases move with
  | work move effect =>
    cases effect with
    | internal | delivered => simp [Backends.answer] at logged
    | called call =>
      cases made with
      | concluding stage => cases stage
      | working stage within =>
        cases stage
        cases move with
        | call call next answer => exact absurd logged within.1.2.log
    | @executed job result _ _ _ performed =>
      cases move with
      | finish position job result running =>
        refine ⟨_, rfl, job, List.mem_of_getElem? running, ?_⟩
        have same : (Calling.perform Backends.answer job.perform backends).2 = backends' :=
          congrArg Prod.snd performed
        rw [← same, SyncJob.perform] at logged
        split at logged
        · rename_i origin copied
          cases @ObjectStore.eq_of_log backends.objects (.copyObject job.destination origin) _ logged
          exact ⟨copied, rfl⟩
        · cases @ObjectStore.eq_of_log backends.objects (.removeObject job.destination) _ logged
  | conclude => simp at logged
  | call call next tree state => exact absurd logged (made.spares rfl).log

namespace Engine

variable {policy : Policy} {history past : List Transition} {before after finish : Engine}
  {event : Event} {key : String} {document version : Document}

/-- A look at a document with the given key begins only when all former looks at such documents
have ended. -/
def Transition.inTurn (key : String) (transition : Transition) : Bool :=
  match transition.event with
  | .began _ document =>
    document.key.toString ≠ key || transition.before.looks.all fun look =>
      look.document.key.toString ≠ key || look.stage.hasEnded
  | _ => true

/-- The looks at documents with the given key come one at a time. -/
def OneAtATime (key : String) (history : List Transition) : Prop :=
  ∀ transition ∈ history, transition.inTurn key = true

/-- A run that was launched under the key copies an object to the place. -/
def Transition.Copies (transition : Transition) (number : Nat) (key : String)
    (place : ObjectAddress) : Prop :=
  transition.event = .ran number ∧
    (∃ run id, transition.before.runs[number]? = some run ∧ run.origin = .launched key id) ∧
      ∃ source, transition.after.backends.objects.log =
        transition.before.backends.objects.log ++ [.copyObject place source]

/-- A look at a deleted document clears the finalizers of the stored version, by the run that it
waits for. -/
def Transition.Finalizes (transition : Transition) (document version : Document) : Prop :=
  document.isDeleting = true ∧ ∃ (look number : Nat) (plan : SyncPlan)
      (next : Except SyncError RunOutcome → Controlling (Except ReconcileError Next)),
    transition.before.looks[look]? = some ⟨document, .waiting plan number next⟩ ∧
      transition.event = .ran number ∧ transition.before.Clears number version

/-- A run that was launched under the key and number is carrying out a copy to the place. -/
def Copying (engine : Engine) (number : Nat) (key : String) (id : RunId) (place : ObjectAddress) :
    Prop :=
  ∃ (run : EngineRun) (pool : SyncPool), engine.runs[number]? = some run ∧
    run.origin = .launched key id ∧ run.active.stage = .working pool ∧
      ∃ job ∈ pool.floor.running, job.source ≠ none ∧ job.destination = place

/-- A superseded run of the key is still carrying out a copy to the place. -/
def Lingers (history : List Transition) (engine : Engine) (number : Nat) (key : String)
    (place : ObjectAddress) : Prop :=
  ∃ id, engine.Copying number key id place ∧ Superseded history key id

/-- An unended look after a move was one before, or it begins. -/
theorem LookMove.unended {looks : List Look} (move : LookMove policy before event looks)
    {look : Nat} {stage' : LookStage} (found : looks[look]? = some ⟨document, stage'⟩)
    (unended : stage'.hasEnded = false) :
    (∃ stage, before.looks[look]? = some ⟨document, stage⟩ ∧ stage.hasEnded = false) ∨
      (look = before.looks.length ∧ event = .began look document) := by
  rcases move.cases found with ⟨stage, former, stays | started | answered⟩ | ⟨rfl, -, began, -⟩
  · obtain ⟨-, rfl⟩ := stays
    exact .inl ⟨stage', former, unended⟩
  · obtain ⟨plan, next, rfl, -⟩ := started
    exact .inl ⟨_, former, rfl⟩
  · obtain ⟨control, next, answer, rest, -⟩ := answered
    refine .inl ⟨stage, former, ?_⟩
    cases stage with
    | asking program =>
      rw [LookStage.rest] at rest
      rw [rest]
      rfl
    | waiting => rfl
  · exact .inr ⟨rfl, began⟩

/-- What a look asks in a move is what it was about to ask. -/
theorem LookMove.asks {looks : List Look} (move : LookMove policy before event looks)
    {look : Nat} {stage : LookStage} {control : Control}
    {next : control.Answer → Controlling (Except ReconcileError Next)}
    (found : before.looks[look]? = some ⟨document, stage⟩) (rest : stage.rest = .ask control next)
    (asked : event.exchange? look ≠ none) : ∃ answer, event = .asked look control answer := by
  obtain ⟨stage', present⟩ := move.present found
  rcases move.cases present with ⟨former, found', how⟩ | ⟨-, -, rfl, -⟩
  · rw [found] at found'
    cases found'
    rcases how with ⟨silent, -⟩ | ⟨_, _, -, rfl, -⟩ | ⟨control', next', answer, rest', exchanged, -⟩
    · exact absurd silent asked
    · exact absurd rfl asked
    · rw [rest] at rest'
      cases rest'
      exact ⟨answer, Event.eq_of_exchange? exchanged⟩
  · exact absurd rfl asked

/-- What holds as long as the looks at documents with the given key come one at a time. -/
structure Turns (key : String) (history : List Transition) (engine : Engine) : Prop where
  /-- At most one look has not ended. -/
  alone : ∀ (look look' : Nat) (document document' : Document) (stage stage' : LookStage),
    engine.looks[look]? = some ⟨document, stage⟩ → document.key.toString = key →
      stage.hasEnded = false → engine.looks[look']? = some ⟨document', stage'⟩ →
        document'.key.toString = key → stage'.hasEnded = false → look = look'
  /-- When it is a look at a deleted document that has asked something, no run is registered. -/
  free : ∀ (look : Nat) (document : Document) (stage : LookStage),
    engine.looks[look]? = some ⟨document, stage⟩ → document.key.toString = key →
      stage.hasEnded = false → document.isDeleting = true → exchanges look history ≠ [] →
        engine.registry.running.get? key = none

/-- A look that launches a run looks at a living document with the key of the run. -/
theorem Coherent.launches (coherent : Coherent policy history before) {look : Nat}
    {plan : SyncPlan} {next : RunId → Controlling (Except ReconcileError Next)}
    (asking : before.looks[look]? = some ⟨document, .asking (.ask (.launch key plan) next)⟩) :
    document.key.toString = key ∧ document.isDeleting = false := by
  have leads := coherent.follows look document _ asking
  generalize exchanges look history = trail at leads
  cases Policy.looking_of_leads leads with
  | atLaunch living prepared last => exact ⟨rfl, living⟩

/-- An unended look at a deleted document that has asked nothing is about to stop the run of its
document. -/
theorem Coherent.stops_first (coherent : Coherent policy history before) {look : Nat}
    {stage : LookStage} (found : before.looks[look]? = some ⟨document, stage⟩)
    (unended : stage.hasEnded = false) (deleting : document.isDeleting = true)
    (first : exchanges look history = []) :
    ∃ next : Option RunId → Controlling (Except ReconcileError Next),
      stage.rest = .ask (.stop document.key.toString) next := by
  have leads := coherent.follows look document stage found
  rw [first, Program.leads_nil_iff] at leads
  rcases @Policy.reconcile_deleted policy document deleting with ⟨result, same⟩ | ⟨next, same, -⟩
  · rw [same] at leads
    cases stage with
    | asking program =>
      obtain rfl : program = .done result := leads
      cases unended
    | waiting => cases leads
  · exact ⟨next, leads.trans same⟩

/-- When a look begins in turn, all looks at documents with its key have ended. -/
theorem Transition.ended_of_inTurn {look look' : Nat} {document' : Document} {stage : LookStage}
    (turn : (⟨before, .began look document, after⟩ : Transition).inTurn key = true)
    (own : document.key.toString = key) (found : before.looks[look']? = some ⟨document', stage⟩)
    (own' : document'.key.toString = key) : stage.hasEnded = true := by
  simp only [inTurn, own, ne_eq, not_true_eq_false, decide_false, Bool.false_or,
    List.all_eq_true] at turn
  have ended := turn _ (List.mem_of_getElem? found)
  simpa [own'] using ended

/-- At most one look at documents with the key goes on, as a look begins only after the others have
ended. -/
theorem Turns.alone_step (turns : Turns key history before) (move : Step policy before event after)
    (turn : (⟨before, event, after⟩ : Transition).inTurn key = true) {look look' : Nat}
    {document' : Document} {stage stage' : LookStage}
    (found : after.looks[look]? = some ⟨document, stage⟩) (own : document.key.toString = key)
    (unended : stage.hasEnded = false)
    (found' : after.looks[look']? = some ⟨document', stage'⟩)
    (own' : document'.key.toString = key) (unended' : stage'.hasEnded = false) : look = look' := by
  have looks := move.lookMove
  rcases looks.unended found unended with ⟨sooner, former, going⟩ | ⟨rfl, rfl⟩ <;>
    rcases looks.unended found' unended' with ⟨sooner', former', going'⟩ | ⟨rfl, began⟩
  · exact turns.alone _ _ _ _ _ _ former own going former' own' going'
  · subst began
    rw [Transition.ended_of_inTurn turn own' former own] at going
    cases going
  · rw [Transition.ended_of_inTurn turn own former' own'] at going'
    cases going'
  · rfl

/-- Once a look at the deleted document has asked something, no run is registered until it ends. The
first thing that the look asks is that the run of its key is stopped, and only looks at the key
register runs for it, of which no other one goes on. -/
theorem Turns.free_step (turns : Turns key history before)
    (coherent : Coherent policy history before) (move : Step policy before event after)
    {look : Nat} {stage' : LookStage} (found : after.looks[look]? = some ⟨document, stage'⟩)
    (own : document.key.toString = key) (unended : stage'.hasEnded = false)
    (deleting : document.isDeleting = true)
    (asked : exchanges look (history ++ [⟨before, event, after⟩]) ≠ []) :
    after.registry.running.get? key = none := by
  rcases move.lookMove.unended found unended with ⟨stage, former, going⟩ | ⟨rfl, rfl⟩
  · by_cases first : exchanges look history = []
    · obtain ⟨next, rest⟩ := coherent.stops_first former going deleting first
      obtain ⟨answer, rfl⟩ := move.lookMove.asks former rest (by simpa [first] using asked)
      cases move.registryMove with
      | still same unlaunched unstopped => exact absurd rfl (unstopped _ _ _)
      | stopped asking stopped => rw [stopped, Registry.get?_stop, if_pos own]
    · have none := turns.free look document stage former own going deleting first
      cases move.registryMove with
      | still same => rw [same, none]
      | @launched look' document' key' plan next asking registered =>
        obtain ⟨own', living⟩ := coherent.launches asking
        rw [registered, Registry.get?_register, if_neg, none]
        rintro rfl
        obtain rfl := turns.alone _ _ _ _ _ _ asking own' rfl former own going
        rw [former] at asking
        cases asking
        rw [deleting] at living
        cases living
      | stopped asking stopped => rw [stopped, Registry.get?_stop, none, ite_self]
      | retired found launched ended finished =>
        rw [finished, Registry.get?_finish, none, ite_self]
  · rw [exchanges_concat, coherent.unasked _ (Nat.le_refl _)] at asked
    exact absurd rfl asked

/-- What holds after an execution in which the looks come one at a time. The induction is on the
execution, and each of its parts has a law of its own. -/
theorem Execution.turns {backends : Backends} {registry : Registry} {seen : List Document}
    (execution : Execution policy (idle backends registry seen) history finish)
    (inTurn : OneAtATime key history) : Turns key history finish := by
  induction execution with
  | start => constructor <;> simp [idle]
  | step past move ih =>
    have turns := ih fun transition member => inTurn transition (List.mem_append_left _ member)
    constructor
    · intro look look' document document' stage stage' found own unended found' own' unended'
      exact turns.alone_step move (inTurn _ List.mem_concat_self) found own unended found' own'
        unended'
    · intro look document stage found own unended deleting asked
      exact turns.free_step (coherent_of_execution past) move found own unended deleting asked

/-- While a look at the deleted document waits for its removal, the runs of the key that are still
at work are superseded ones. The one look that goes on waits for its own run, which is no launched
one, and the run that was registered was waited for before. -/
theorem Turns.superseded (turns : Turns document.key.toString history before)
    (coherent : Coherent policy history before) (tallied : Tallied history before)
    {look number number' : Nat} {plan : SyncPlan}
    {next : Except SyncError RunOutcome → Controlling (Except ReconcileError Next)}
    {run : EngineRun} {id : RunId} {pool : SyncPool}
    (waiting : before.looks[look]? = some ⟨document, .waiting plan number next⟩)
    (deleting : document.isDeleting = true) (found : before.runs[number']? = some run)
    (launched : run.origin = .launched document.key.toString id)
    (working : run.active.stage = .working pool) :
    Superseded history document.key.toString id := by
  have unretired : run.retired = false := by
    by_contra retired
    obtain ⟨outcome, ended⟩ := tallied.ended number' run found (by simpa using retired)
    rw [ActiveRun.outcome?_eq_some_iff, working] at ended
    cases ended
  rcases tallied.known number' run _ id found launched unretired with
    registered | superseded | ⟨look', document', next', awaiting, own⟩
  · have asked : exchanges look history ≠ [] := by
      intro first
      obtain ⟨_, rest⟩ := coherent.stops_first waiting rfl deleting first
      cases rest
    have free := turns.free look document _ waiting rfl rfl deleting asked
    rw [registered] at free
    cases free
  · exact superseded
  · obtain rfl := turns.alone _ _ _ _ _ _ waiting rfl rfl awaiting own rfl
    rw [waiting] at awaiting
    cases awaiting

/-- Along an execution a run keeps its origin, and if it winds down it goes on to do so. -/
theorem Execution.run_present {start : Engine} {later : List Transition} {number : Nat}
    {run : EngineRun} (execution : Execution policy start later finish)
    (found : start.runs[number]? = some run) :
    ∃ run', finish.runs[number]? = some run' ∧ run'.origin = run.origin ∧
      ∀ jobs, run.active.Winds jobs → run'.active.Winds jobs := by
  induction execution with
  | start => exact ⟨run, found, rfl, fun _ winds => winds⟩
  | step past move ih =>
    obtain ⟨former, present, origin, winding⟩ := ih
    obtain ⟨run', present', moved⟩ := move.run_present present
    exact ⟨run', present', moved.origin.trans origin,
      fun jobs winds => moved.winds (winding jobs winds)⟩

/-- A copy that a run is carrying out can land at once, whatever else the engine is about. -/
theorem Copying.lands {number : Nat} {id : RunId} {place : ObjectAddress}
    (copying : before.Copying number key id place) :
    ∃ after, Step policy before (.ran number) after ∧
      (⟨before, .ran number, after⟩ : Transition).Copies number key place := by
  obtain ⟨⟨⟨plan, tree, _⟩, origin, retired⟩, pool, found, launched, working, job, member, copies,
    rfl⟩ := copying
  cases working
  obtain ⟨position, running⟩ := List.mem_iff_getElem?.mp member
  obtain ⟨source, copied⟩ := Option.ne_none_iff_exists'.mp copies
  have performs : job.perform = Call.copyObject job.destination source := by
    simp [SyncJob.perform, copied]
  refine ⟨_, .run found (.work (.finish position job _ running) (.executed tree rfl)), rfl,
    ⟨_, id, found, launched⟩, source, ?_⟩
  rw [performs]
  exact @ObjectStore.log_answer before.backends.objects (.copyObject job.destination source)

/-- A copy that lands was carried out by a worker of its run just before. -/
theorem Coherent.copying (coherent : Coherent policy history before)
    (move : Step policy before event after) {number : Nat} {place : ObjectAddress}
    (copies : (⟨before, event, after⟩ : Transition).Copies number key place) :
    ∃ id, before.Copying number key id place := by
  obtain ⟨rfl, ⟨run, id, found, launched⟩, source, logged⟩ := copies
  cases move with
  | @run number runner active backends present move =>
    obtain rfl := Option.some.inj (found.symm.trans present)
    obtain ⟨pool, working, job, member, copied, same⟩ :=
      (coherent.made number run found).copies move logged
    exact ⟨id, run, pool, found, launched, working, job, member, by simp [copied], same⟩

/-- When a run moves, the looks stay where they are, also one that waits for this run. -/
theorem Step.ran_looks {number : Nat} (move : Step policy before (.ran number) after) :
    after.looks = before.looks := by
  cases move
  rfl

/-- A copy that lands later, by a run that is there already, is carried out now, by a run that is
superseded or not at work. Of a run that winds down only those jobs are carried out later that are
carried out now. -/
theorem Execution.lingers {backends : Backends} {seen : List Document} {middle : Engine}
    {later : List Transition} {number : Nat} {id : RunId} {place : ObjectAddress}
    (execution : Execution policy (idle backends .empty seen) past middle)
    (superseded : ∀ (run : EngineRun) (pool : SyncPool), middle.runs[number]? = some run →
      run.origin = .launched key id → run.active.stage = .working pool → Superseded past key id)
    (continued : Execution policy middle later finish) (there : number < middle.runs.length)
    (copying : finish.Copying number key id place) : Lingers past middle number key place := by
  obtain ⟨run, found⟩ : ∃ run, middle.runs[number]? = some run :=
    ⟨_, List.getElem?_eq_getElem there⟩
  obtain ⟨run', found', origin, winding⟩ := continued.run_present found
  obtain ⟨former, pool, present, launched, working, job, member, copies, same⟩ := copying
  obtain rfl := Option.some.inj (found'.symm.trans present)
  rw [origin] at launched
  have winds : run.active.Winds fun job =>
      ∃ pool, run.active.stage = .working pool ∧ job ∈ pool.floor.running := by
    intro pool stage
    have halted := execution.tallied.halted number run key id found launched
      (superseded run pool found launched stage)
    exact ⟨(halted pool stage).1, fun job member => ⟨pool, stage, member⟩⟩
  obtain ⟨-, within⟩ := winding _ winds pool working
  obtain ⟨pool', stage, running⟩ := within job member
  exact ⟨id, ⟨run, pool', found, launched, stage, job, running, copies, same⟩,
    superseded run pool' found launched stage⟩

/-- When a look at a deleted document has cleared the finalizer, then, whatever happens later, a
copy into the version by a run of its key comes from a run that is launched later: this holds
exactly if no superseded run is still carrying out such a copy. -/
theorem late_copies_iff {backends : Backends} {seen : List Document} {cleared : Transition}
    (execution : Execution policy (idle backends .empty seen) (past ++ [cleared]) finish)
    (inTurn : OneAtATime document.key.toString (past ++ [cleared]))
    (finalizes : cleared.Finalizes document version) :
    (∀ later last, Execution policy finish later last → ∀ transition ∈ later,
      ∀ number place, document.Owns place →
        transition.Copies number document.key.toString place → finish.runs.length ≤ number) ↔
    ∀ number place, document.Owns place →
      ¬ Lingers (past ++ [cleared]) finish number document.key.toString place := by
  constructor
  · rintro launched number place owned ⟨id, copying, -⟩
    obtain ⟨after, move, copies⟩ := @Copying.lands policy _ _ _ _ _ copying
    have late := launched _ after (.step .start move) _ List.mem_concat_self number place owned
      copies
    obtain ⟨run, -, found, -⟩ := copying
    exact absurd (List.getElem?_eq_some_iff.mp found).1 (Nat.not_lt_of_le late)
  · intro none later last continued transition member number place owned copies
    by_contra early
    obtain ⟨deleting, look, cleanup, plan, next, waited, ran, -⟩ := finalizes
    obtain ⟨-, clearing, rfl⟩ := execution.last
    rw [ran] at clearing
    rw [← clearing.ran_looks] at waited
    obtain ⟨front, back, rfl⟩ := List.append_of_mem member
    obtain ⟨between, move, -⟩ := continued.around
    obtain ⟨id, copying⟩ := (coherent_of_execution (execution.append between)).copying move copies
    refine none number place owned
      (execution.lingers (fun run pool found launched working => ?_) between
        (Nat.lt_of_not_le early) copying)
    exact (execution.turns inTurn).superseded (coherent_of_execution execution) execution.tallied
      waited deleting found launched working

/-- The marked document, of which the one file is inherited and has yet to be copied. -/
def inheritingDocument : Document :=
  { markedDocument with
    spec := { markedDocument.spec with inheritedFrom := some "v0" }
    status := some
      { conditions := []
        files := [⟨{ apiGroup := none, kind := Reference.versionedDatasetKind
                     name := Layout.lineageName "v0", ns := some "team-a" },
          [.blank "a.txt" .processing]⟩] } }

/-- The inheriting document as it is stored first. -/
def inheritingVersion : Document := DocumentStore.withToken inheritingDocument "1"

/-- The inheriting document after it was marked deleted. -/
def inheritingDeleted : Document :=
  DocumentStore.withToken
    { inheritingDocument with metadata := { inheritingDocument.metadata with
        deletionTimestamp := some "2024-05-01T00:00:00+00:00" } } "2"

/-- Surroundings in which the inheriting document is stored, and its file can be copied. -/
def inheritingBackends : Backends where
  objects := ObjectStore.empty.putObject "team-a" "dataset/ds/v0/a.txt"
  documents := DocumentStore.empty.write "2024-05-01T00:00:00+00:00" (.insert inheritingDocument)
  table := default
  now := "2024-05-01T00:00:00+00:00"

/-- The place of the one file of the inheriting document. -/
def inheritingPlace : ObjectAddress := ⟨"team-a", "dataset/ds/v1/a.txt"⟩

/-- A number is retired if every run that was launched under it has given its registration back. -/
theorem hasRetired_of_all {engine : Engine} {id : RunId}
    (retired : (engine.runs.all fun run =>
      match run.origin with
      | .launched _ number => number ≠ id || run.retired
      | _ => true) = true) : engine.hasRetired id := by
  intro run member key launched
  have given := List.all_eq_true.mp retired run member
  rw [launched] at given
  simpa using given

/-- An execution can go on where it has come to: the state that it has reached is the start of what
follows. -/
theorem Execution.resting {start : Engine} (_ : Execution policy start history finish) :
    Execution policy finish [] finish := .start

/-- A run is superseded while it carries out its copy; a look at the deleted document stops the
second run, purges and clears the finalizer. Then the first copy lands. Later a look is given the
first version of the document again, and launches a run that copies the file once more.

All moves are listed in their order. The first look launches a run, which begins its copy; the
second look supersedes it. The document is marked deleted, and the third look stops the second run,
purges, and removes the rest. The superseded run has been at work all the time. At the end the
version that was read first is given to a look again. -/
theorem released_before_copies :
    ∃ past cleared later finish, Execution default
        (idle inheritingBackends .empty [inheritingVersion]) (past ++ [cleared]) cleared.after ∧
      Execution default cleared.after later finish ∧
      OneAtATime inheritingDeleted.key.toString (past ++ [cleared] ++ later) ∧
      cleared.Finalizes inheritingDeleted inheritingDeleted ∧
      cleared.after.runs.length = 3 ∧
      (∃ copied ∈ later, copied.Copies 0 inheritingDeleted.key.toString inheritingPlace) ∧
      (∃ copied ∈ later, copied.Copies 3 inheritingDeleted.key.toString inheritingPlace) ∧
      finish.stored? inheritingDeleted.key = none ∧
      finish.backends.objects.Holds inheritingPlace := by
  have begun := Execution.start.step (@Step.begin default
    (idle inheritingBackends .empty [inheritingVersion]) inheritingVersion List.mem_cons_self)
  have listed := begun.step (@Step.call default _ 0 inheritingVersion (.object _) _ rfl)
  have clocked := listed.step (@Step.call default _ 0 inheritingVersion .clock _ rfl)
  have launched := clocked.step (@Step.launch default _ 0 inheritingVersion _ _ _ rfl)
  have observed := launched.step
    (@Step.run default _ 0 _ _ _ rfl (.work (.observe _) (.internal _ _)))
  have checked := observed.step
    (@Step.run default _ 0 _ _ _ rfl (.work (.call _ _ _) (.called _ _ _)))
  have continued := checked.step
    (@Step.run default _ 0 _ _ _ rfl (.work (.observe _) (.internal _ _)))
  have queued := continued.step
    (@Step.run default _ 0 _ _ _ rfl (.work (.enqueue _ _ rfl) (.internal _ _)))
  have started := queued.step
    (@Step.run default _ 0 _ _ _ rfl (.work (.start rfl rfl nofun) (.internal _ _)))
  have begun := started.step
    (@Step.begin default _ inheritingVersion List.mem_cons_self)
  have listed := begun.step (@Step.call default _ 1 inheritingVersion (.object _) _ rfl)
  have clocked := listed.step (@Step.call default _ 1 inheritingVersion .clock _ rfl)
  have superseded := clocked.step (@Step.launch default _ 1 inheritingVersion _ _ _ rfl)
  have deleted := superseded.step (.write (.markDeleted inheritingDocument.key))
  have read := deleted.step (@Step.read default _ inheritingDocument.key inheritingDeleted rfl)
  have begun := read.step (@Step.begin default _ inheritingDeleted List.mem_cons_self)
  have stopped := begun.step (@Step.stop default _ 2 inheritingDeleted _ _ rfl)
  have observed := stopped.step
    (@Step.run default _ 1 _ _ _ rfl (.work (.observe _) (.internal _ _)))
  have ended := observed.step (@Step.run default _ 1 _ _ _ rfl (.conclude _ _ rfl))
  have retired := ended.step (@Step.retire default _ 1 _ _ _ _ rfl rfl rfl rfl)
  have awaited := retired.step
    (@Step.await default _ 2 inheritingDeleted _ _ rfl (hasRetired_of_all rfl))
  have checked := awaited.step (@Step.call default _ 2 inheritingDeleted (.object _) _ rfl)
  have purged := checked.step (@Step.call default _ 2 inheritingDeleted (.object _) _ rfl)
  have synced := purged.step (@Step.sync default _ 2 inheritingDeleted _ _ rfl)
  have observed := synced.step
    (@Step.run default _ 2 _ _ _ rfl (.work (.observe _) (.internal _ _)))
  have checked := observed.step
    (@Step.run default _ 2 _ _ _ rfl (.work (.call _ _ _) (.called _ _ _)))
  have continued := checked.step
    (@Step.run default _ 2 _ _ _ rfl (.work (.observe _) (.internal _ _)))
  have queued := continued.step
    (@Step.run default _ 2 _ _ _ rfl (.work (.enqueue _ _ rfl) (.internal _ _)))
  have started := queued.step
    (@Step.run default _ 2 _ _ _ rfl (.work (.start rfl rfl nofun) (.internal _ _)))
  have removed := started.step
    (@Step.run default _ 2 _ _ _ rfl (.work (.finish 0 _ _ rfl) (.executed _ rfl)))
  have delivered := removed.step
    (@Step.run default _ 2 _ _ _ rfl (.work (.deliver _ _ _ rfl) (.delivered _ _ _ _)))
  have concluded := delivered.step (@Step.run default _ 2 _ _ _ rfl (.conclude _ _ rfl))
  have reread := concluded.step (@Step.run default _ 2 _ _ _ rfl (.call _ _ _ _))
  have cleared := reread.step (@Step.run default _ 2 _ _ _ rfl (.call _ _ _ _))
  have copied := cleared.resting.step
    (@Step.run default _ 0 _ _ _ rfl (.work (.finish 0 _ _ rfl) (.executed _ rfl)))
  have resumed := copied.step (@Step.resume default _ 2 2 inheritingDeleted _ _ _ _ rfl rfl rfl)
  have begun := resumed.step
    (@Step.begin default _ inheritingVersion (List.mem_cons_of_mem _ List.mem_cons_self))
  have listed := begun.step (@Step.call default _ 3 inheritingVersion (.object _) _ rfl)
  have clocked := listed.step (@Step.call default _ 3 inheritingVersion .clock _ rfl)
  have launched := clocked.step (@Step.launch default _ 3 inheritingVersion _ _ _ rfl)
  have observed := launched.step
    (@Step.run default _ 3 _ _ _ rfl (.work (.observe _) (.internal _ _)))
  have checked := observed.step
    (@Step.run default _ 3 _ _ _ rfl (.work (.call _ _ _) (.called _ _ _)))
  have continued := checked.step
    (@Step.run default _ 3 _ _ _ rfl (.work (.observe _) (.internal _ _)))
  have queued := continued.step
    (@Step.run default _ 3 _ _ _ rfl (.work (.enqueue _ _ rfl) (.internal _ _)))
  have started := queued.step
    (@Step.run default _ 3 _ _ _ rfl (.work (.start rfl rfl nofun) (.internal _ _)))
  have again := started.step
    (@Step.run default _ 3 _ _ _ rfl (.work (.finish 0 _ _ rfl) (.executed _ rfl)))
  refine ⟨_, _, _, _, cleared, again, List.all_eq_true.mp rfl,
    ⟨rfl, 2, 2, _, _, rfl, rfl, ?clears⟩, rfl, ⟨_, @List.mem_of_getElem? _ _ 0 _ rfl, ?first⟩,
    ⟨_, List.mem_concat_self, ?second⟩, rfl, rfl⟩
  case clears =>
    exact ⟨⟨_, inheritingDeleted, _, rfl, rfl, rfl, by decide, rfl, rfl⟩, rfl,
      List.mem_cons_self, rfl⟩
  case first => exact ⟨rfl, ⟨_, _, rfl, rfl⟩, _, rfl⟩
  case second => exact ⟨rfl, ⟨_, _, rfl, rfl⟩, _, rfl⟩

/-- The place of the inheriting document's file is one of its version. -/
theorem owns_inheritingPlace : inheritingDeleted.Owns inheritingPlace := ⟨rfl, "a.txt", by decide⟩

/-- After the finalizer was cleared, copies land in the version: one by a run that was superseded
before, and one by a run that is launched later. The document is gone, and the object stays. -/
theorem late_copies_land :
    ∃ past cleared later finish, Execution default
        (idle inheritingBackends .empty [inheritingVersion]) (past ++ [cleared]) cleared.after ∧
      Execution default cleared.after later finish ∧
      OneAtATime inheritingDeleted.key.toString (past ++ [cleared] ++ later) ∧
      cleared.Finalizes inheritingDeleted inheritingDeleted ∧
      ∃ place, inheritingDeleted.Owns place ∧
        (∃ copied ∈ later, ∃ number, number < cleared.after.runs.length ∧
          copied.Copies number inheritingDeleted.key.toString place) ∧
        (∃ copied ∈ later, ∃ number, cleared.after.runs.length ≤ number ∧
          copied.Copies number inheritingDeleted.key.toString place) ∧
        finish.stored? inheritingDeleted.key = none ∧ finish.backends.objects.Holds place := by
  obtain ⟨past, cleared, later, finish, execution, continued, inTurn, finalizes, three,
    ⟨first, member, copies⟩, ⟨second, member', copies'⟩, gone, held⟩ := released_before_copies
  exact ⟨past, cleared, later, finish, execution, continued, inTurn, finalizes, inheritingPlace,
    owns_inheritingPlace, ⟨first, member, 0, by omega, copies⟩,
    ⟨second, member', 3, by omega, copies'⟩, gone, held⟩

/-- When the finalizer of the inheriting document has been cleared, a superseded run is still
carrying out its copy. -/
theorem superseded_copy_lingers :
    ∃ past cleared number place, Execution default
        (idle inheritingBackends .empty [inheritingVersion]) (past ++ [cleared]) cleared.after ∧
      inheritingDeleted.Owns place ∧
      Lingers (past ++ [cleared]) cleared.after number inheritingDeleted.key.toString place := by
  obtain ⟨past, cleared, later, finish, execution, continued, inTurn, finalizes, three,
    ⟨first, member, copies⟩, -⟩ := released_before_copies
  by_contra none
  have launched := (late_copies_iff execution
    (fun transition member => inTurn transition (List.mem_append_left _ member)) finalizes).mpr
      fun number place owned lingers =>
        none ⟨past, cleared, number, place, execution, owned, lingers⟩
  have late := launched later finish continued first member 0 inheritingPlace
    owns_inheritingPlace copies
  omega

end Engine

end DatasetSync
