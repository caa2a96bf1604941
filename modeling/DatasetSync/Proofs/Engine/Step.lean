import DatasetSync.Controller.Reconcile
import DatasetSync.Proofs.Store.Versions
import DatasetSync.Proofs.Sync.Progress

/-!
# The engine among other clients

The engine is at work in several places at once: looks at documents are under way, runs are
being carried out, and other clients write to the document store. `Engine.Step` says which
single moves are possible. Every call on a store or on the registry is one move, and the
moves of all looks, runs and clients follow each other in any order.

A look works on a version of its document that was read at some earlier time, however old it
is by now. A look that starts a run in the foreground waits for the end of that run; a run
that it launches goes on by itself. Runs can also be carried out by somebody else, on a
version that was read.

An `Execution` is a list of such moves, each with the state before and after it. Nothing is
assumed about fairness, and no limit is set on the number of looks of one document; laws
about one look at a time are laws about some of these executions.
-/

namespace DatasetSync

/-- Where a run comes from. -/
inductive RunOrigin where
  /-- A look started it and waits for its end. -/
  | look (look : Nat)
  /-- A look launched it under a key and a number. -/
  | launched (key : String) (id : RunId)
  /-- Somebody else carries it out. -/
  | alone
deriving DecidableEq, Repr

/-- A run of the engine. -/
structure EngineRun where
  active : ActiveRun
  origin : RunOrigin
  /-- Whether a launched run has given its registration back. -/
  retired : Bool

namespace EngineRun

/-- The run after it has noticed which runs are cancelled. -/
def notice (registry : Registry) (run : EngineRun) : EngineRun :=
  match run.origin with
  | .launched _ id =>
    if registry.isCancelled id then { run with active := run.active.cancel } else run
  | _ => run

end EngineRun

/-- How far a look has come. -/
inductive LookStage where
  /-- This is left to be carried out. -/
  | asking (rest : Controlling (Except ReconcileError Next))
  /-- It waits for the end of a run, and goes on by its outcome. -/
  | waiting (plan : SyncPlan) (run : Nat)
      (next : Except SyncError RunOutcome → Controlling (Except ReconcileError Next))

namespace LookStage

/-- What is left of the look, whether or not it waits. -/
def rest : LookStage → Controlling (Except ReconcileError Next)
  | .asking rest => rest
  | .waiting plan _ next => .ask (.sync plan) next

end LookStage

/-- A look at a document. -/
structure Look where
  /-- The version that the look was given. -/
  document : Document
  stage : LookStage

/-- The engine and its surroundings. Looks and runs are numbered in order of arrival. -/
structure Engine where
  backends : Backends
  registry : Registry
  looks : List Look
  runs : List EngineRun
  /-- The versions that were read so far. -/
  seen : List Document

namespace Engine

/-- An engine that is not at work; some versions may have been read. -/
def idle (backends : Backends) (registry : Registry) (seen : List Document) : Engine :=
  { backends, registry, looks := [], runs := [], seen }

/-- The stored version of a document. -/
def stored? (engine : Engine) (key : QualifiedName) : Option Document :=
  engine.backends.documents.get? key

/-- The engine with another document store. -/
def withDocuments (engine : Engine) (documents : DocumentStore) : Engine :=
  { engine with backends := { engine.backends with documents } }

/-- The engine with a registry that its runs have noticed. -/
def withRegistry (engine : Engine) (registry : Registry) : Engine :=
  { engine with registry, runs := engine.runs.map (·.notice registry) }

/-- The engine with a look at another stage. -/
def withLook (engine : Engine) (look : Nat) (document : Document) (stage : LookStage) : Engine :=
  { engine with looks := engine.looks.set look ⟨document, stage⟩ }

/-- The engine with one more run. -/
def withRun (engine : Engine) (plan : SyncPlan) (origin : RunOrigin) : Engine :=
  { engine with
    runs := engine.runs ++ [{ active := .start plan false, origin, retired := false }] }

/-- Whether a launched run has come to its end and given its registration back. -/
def hasRetired (engine : Engine) (id : RunId) : Prop :=
  ∀ run ∈ engine.runs, ∀ key, run.origin = .launched key id → run.retired = true

/-- What happens in a move. -/
inductive Event where
  /-- Another client wrote to the document store. -/
  | wrote (write : ClientWrite)
  | ticked (now : Timestamp)
  /-- The stored version of a document was read. -/
  | read (document : Document)
  | began (look : Nat) (document : Document)
  /-- A look started a run and waits for it. -/
  | synced (look : Nat) (plan : SyncPlan)
  /-- A look asked something and was answered. -/
  | asked (look : Nat) (control : Control) (answer : control.Answer)
  | ran (run : Nat)
  /-- A launched run that has ended gave its registration back. -/
  | retired (run : Nat)
  /-- Somebody else started a run. -/
  | scheduled (plan : SyncPlan)
  /-- Somebody else cancelled a run of his own. -/
  | cancelled (run : Nat)

/-- The moves of the engine and of the other clients. -/
inductive Step (policy : Policy) : Engine → Event → Engine → Prop where
  | write {engine : Engine} (write : ClientWrite) :
      Step policy engine (.wrote write)
        (engine.withDocuments (engine.backends.documents.write engine.backends.now write))
  | tick {engine : Engine} (now : Timestamp) :
      Step policy engine (.ticked now)
        { engine with backends := { engine.backends with now } }
  | read {engine : Engine} {key : QualifiedName} {document : Document}
      (found : engine.stored? key = some document) :
      Step policy engine (.read document) { engine with seen := document :: engine.seen }
  | begin {engine : Engine} {document : Document} (seen : document ∈ engine.seen) :
      Step policy engine (.began engine.looks.length document)
        { engine with looks := engine.looks ++ [⟨document, .asking (policy.reconcile document)⟩] }
  | call {engine : Engine} {look : Nat} {document : Document} {call : Call}
      {next : call.Answer → Controlling (Except ReconcileError Next)}
      (asking : engine.looks[look]? = some ⟨document, .asking (.ask (.call call) next)⟩) :
      Step policy engine (.asked look (.call call) (engine.backends.answer call).1)
        ({ engine with backends := (engine.backends.answer call).2 }.withLook look document
          (.asking (next (engine.backends.answer call).1)))
  | sync {engine : Engine} {look : Nat} {document : Document} {plan : SyncPlan}
      {next : Except SyncError RunOutcome → Controlling (Except ReconcileError Next)}
      (asking : engine.looks[look]? = some ⟨document, .asking (.ask (.sync plan) next)⟩) :
      Step policy engine (.synced look plan)
        ((engine.withRun plan (.look look)).withLook look document
          (.waiting plan engine.runs.length next))
  | resume {engine : Engine} {look number : Nat} {document : Document} {plan : SyncPlan}
      {next : Except SyncError RunOutcome → Controlling (Except ReconcileError Next)}
      {run : EngineRun} {outcome : Except SyncError RunOutcome}
      (waiting : engine.looks[look]? = some ⟨document, .waiting plan number next⟩)
      (found : engine.runs[number]? = some run) (ended : run.active.outcome? = some outcome) :
      Step policy engine (.asked look (.sync plan) outcome)
        (engine.withLook look document (.asking (next outcome)))
  | launch {engine : Engine} {look : Nat} {document : Document} {key : String}
      {plan : SyncPlan} {next : RunId → Controlling (Except ReconcileError Next)}
      (asking : engine.looks[look]? = some ⟨document, .asking (.ask (.launch key plan) next)⟩) :
      Step policy engine (.asked look (.launch key plan) (engine.registry.register key).1)
        (((engine.withRegistry (engine.registry.register key).2).withRun plan
          (.launched key (engine.registry.register key).1)).withLook look document
            (.asking (next (engine.registry.register key).1)))
  | stop {engine : Engine} {look : Nat} {document : Document} {key : String}
      {next : Option RunId → Controlling (Except ReconcileError Next)}
      (asking : engine.looks[look]? = some ⟨document, .asking (.ask (.stop key) next)⟩) :
      Step policy engine (.asked look (.stop key) (engine.registry.stop key).1)
        ((engine.withRegistry (engine.registry.stop key).2).withLook look document
          (.asking (next (engine.registry.stop key).1)))
  | await {engine : Engine} {look : Nat} {document : Document} {id : RunId}
      {next : Unit → Controlling (Except ReconcileError Next)}
      (asking : engine.looks[look]? = some ⟨document, .asking (.ask (.await id) next)⟩)
      (retired : engine.hasRetired id) :
      Step policy engine (.asked look (.await id) ())
        (engine.withLook look document (.asking (next ())))
  | run {engine : Engine} {number : Nat} {run : EngineRun} {active : ActiveRun}
      {backends : Backends} (found : engine.runs[number]? = some run)
      (move : ActiveRun.Step Backends.answer (run.active, engine.backends) (active, backends)) :
      Step policy engine (.ran number)
        { engine with backends, runs := engine.runs.set number { run with active } }
  | retire {engine : Engine} {number : Nat} {run : EngineRun} {key : String} {id : RunId}
      {outcome : Except SyncError RunOutcome} (found : engine.runs[number]? = some run)
      (launched : run.origin = .launched key id) (ended : run.active.outcome? = some outcome)
      (registered : run.retired = false) :
      Step policy engine (.retired number)
        { engine with
          registry := engine.registry.finish key id
          runs := engine.runs.set number { run with retired := true } }
  | scheduleCopy {engine : Engine} {document : Document} (sizing : Pool.Sizing)
      (seen : document ∈ engine.seen) :
      Step policy engine (.scheduled (.copying document sizing))
        (engine.withRun (.copying document sizing) .alone)
  | scheduleRemoval {engine : Engine} {document : Document} (deleted : FileTree)
      (sizing : Pool.Sizing) (seen : document ∈ engine.seen) :
      Step policy engine (.scheduled (.removing document deleted sizing))
        (engine.withRun (.removing document deleted sizing) .alone)
  | cancel {engine : Engine} {number : Nat} {run : EngineRun}
      (found : engine.runs[number]? = some run) (alone : run.origin = .alone) :
      Step policy engine (.cancelled number)
        { engine with
          runs := engine.runs.set number { run with active := run.active.cancel } }

/-- A move with the states around it. -/
structure Transition where
  before : Engine
  event : Event
  after : Engine

/-- The engine has come from one state to another by a list of moves, oldest first. -/
inductive Execution (policy : Policy) (start : Engine) : List Transition → Engine → Prop where
  | start : Execution policy start [] start
  | step {history : List Transition} {before after : Engine} {event : Event}
      (past : Execution policy start history before) (move : Step policy before event after) :
      Execution policy start (history ++ [⟨before, event, after⟩]) after

/-- What a look asks in a move, and how it is answered. -/
def Event.exchange? (look : Nat) : Event → Option (Exchange Controls)
  | .asked asker control answer => if asker = look then some ⟨control, answer⟩ else none
  | _ => none

/-- What a look has asked so far, and how it was answered. -/
def exchanges (look : Nat) (history : List Transition) : List (Exchange Controls) :=
  history.filterMap fun transition => transition.event.exchange? look

/-- The concluding call that a run makes in a move, and how it is answered. -/
def Transition.runExchange? (number : Nat) (transition : Transition) : Option (Exchange Calls) :=
  match transition.event with
  | .ran runner =>
    if runner = number then
      (transition.before.runs[number]?).bind fun run =>
        run.active.exchange? Backends.answer transition.before.backends
    else none
  | _ => none

/-- The concluding calls that a run has made so far. -/
def runExchanges (number : Nat) (history : List Transition) : List (Exchange Calls) :=
  history.filterMap (·.runExchange? number)

/-- Without a move a look has asked nothing. -/
@[simp] theorem exchanges_nil (look : Nat) : exchanges look [] = [] := rfl

/-- One more move adds to what a look has asked what it asks in this move, if anything. -/
@[simp] theorem exchanges_concat (look : Nat) (history : List Transition)
    (transition : Transition) :
    exchanges look (history ++ [transition]) =
      exchanges look history ++ (transition.event.exchange? look).toList := by
  cases asked : transition.event.exchange? look <;>
    simp [exchanges, List.filterMap_append, asked]

/-- Without a move a run has made no concluding call. -/
@[simp] theorem runExchanges_nil (number : Nat) : runExchanges number [] = [] := rfl

/-- One more move adds to the concluding calls of a run the one that it makes in this move, if
any. -/
@[simp] theorem runExchanges_concat (number : Nat) (history : List Transition)
    (transition : Transition) :
    runExchanges number (history ++ [transition]) =
      runExchanges number history ++ (transition.runExchange? number).toList := by
  cases made : transition.runExchange? number <;>
    simp [runExchanges, List.filterMap_append, made]

end Engine

end DatasetSync
