import DatasetSync.Controller.Reconcile
import DatasetSync.Sync.Turn

/-!
# A world with other clients in it

A world holds the surroundings of the engine in memory, the runs that were launched, and
what other clients are going to do. Others act at fixed points: after the engine has read a
document, or after so many copies. Calls of the engine on the document store can be made
to fail.

A background run does nothing before somebody waits: for it, or for a run of his own. From
then on all background runs take turns, in the order in which they were launched, until each
of them has come to its end; the one who waits goes on after that. If he waits for a run of
his own, the producer of that run has its turn before those of the background runs, and its
workers have theirs before the workers of the background runs.
-/

namespace DatasetSync.Scenario

/-- What another client does to a document. -/
inductive Deed where
  | bump
  | markDeleted
  | remove
deriving DecidableEq, Repr

/-- Something that another client does. -/
structure Intrusion where
  deed : Deed
  key : QualifiedName
deriving DecidableEq, Repr

/-- What happens after a copy. -/
inductive CopyEffect where
  | intrude (intrusion : Intrusion)
  /-- The run that is being carried out in the foreground is cancelled. -/
  | cancelRun
deriving DecidableEq, Repr

/-- Something that happens after a copy with a given number, counted from one. -/
structure CopyTrigger where
  copy : Nat
  effect : CopyEffect
deriving DecidableEq, Repr

/-- The errors with which calls of the engine on the document store fail. -/
structure Faults where
  get : Option StoreError
  update : Option StoreError
  patchStatus : Option StoreError
deriving DecidableEq, Repr

/-- A background run that has not begun. -/
structure PendingRun where
  id : RunId
  key : String
  plan : SyncPlan
deriving DecidableEq, Repr

/-- A background run that is under way. -/
structure BackgroundRun where
  id : RunId
  key : String
  active : ActiveRun

/-- The engine, its surroundings and the others. -/
structure World where
  policy : Policy
  backends : Backends
  registry : Registry
  /-- The runs that wait, oldest first. -/
  pending : List PendingRun
  /-- Copies of documents that were kept under a name. -/
  saved : OrderedMap String Document
  faults : Faults
  /-- What happens once, right after a document was read. -/
  afterGet : Option Intrusion
  triggers : List CopyTrigger
  /-- How many copies were made since the triggers were set. -/
  copies : Nat
  /-- Whether the run in the foreground has been cancelled. -/
  foregroundCancelled : Bool
deriving DecidableEq, Repr

namespace World

/-- A world in which nothing has happened. -/
def initial (policy : Policy) (backends : Backends) : World :=
  { policy, backends, registry := .empty, pending := [], saved := .empty
    faults := ⟨none, none, none⟩, afterGet := none, triggers := [], copies := 0
    foregroundCancelled := false }

/-- Replace the document store. -/
def withDocuments (world : World) (documents : DocumentStore) : World :=
  { world with backends := { world.backends with documents } }

/-- Replace the object store. -/
def withObjects (world : World) (objects : ObjectStore) : World :=
  { world with backends := { world.backends with objects } }

/-- The stored version of a document. -/
def stored? (world : World) (key : QualifiedName) : Option Document :=
  world.backends.documents.get? key

/-- Another client acts. -/
def intrude (world : World) (intrusion : Intrusion) : World :=
  let documents := world.backends.documents
  match intrusion.deed with
  | .bump => world.withDocuments (documents.bump intrusion.key)
  | .markDeleted =>
    world.withDocuments (documents.markDeleted world.backends.now intrusion.key).2
  | .remove => world.withDocuments (documents.remove intrusion.key).2

/-- What was to happen after a document was read happens. -/
def intrudeAfterGet (world : World) : World :=
  match world.afterGet with
  | none => world
  | some intrusion => { world with afterGet := none }.intrude intrusion

/-- An effect of a copy. -/
def applyEffect (world : World) : CopyEffect → World
  | .intrude intrusion => world.intrude intrusion
  | .cancelRun => { world with foregroundCancelled := true }

/-- A copy was made, whether well or badly. -/
def countCopy (world : World) : World :=
  let copies := world.copies + 1
  let due := world.triggers.filter (·.copy = copies)
  due.foldl (fun world trigger => world.applyEffect trigger.effect) { world with copies }

/-- Answer a call of the engine on the document store. -/
def answerDocument (world : World) (call : DocumentCall) : call.Answer × World :=
  let (answer, documents) := world.backends.documents.answer call
  match call with
  | .get _ =>
    match world.faults.get with
    | some error => (.error error, world)
    | none => (answer, (world.withDocuments documents).intrudeAfterGet)
  | .update _ =>
    match world.faults.update with
    | some error => (.error error, world)
    | none => (answer, world.withDocuments documents)
  | .patchStatus _ _ _ =>
    match world.faults.patchStatus with
    | some error => (.error error, world)
    | none => (answer, world.withDocuments documents)

/-- Answer a call of the engine. -/
def answer (call : Call) (world : World) : call.Answer × World :=
  match call with
  | .document call => world.answerDocument call
  | .object call =>
    let (answer, objects) := world.backends.objects.answer call
    let after := world.withObjects objects
    match call with
    | .copyObject _ _ => (answer, after.countCopy)
    | _ => (answer, after)
  | .resolve source fallback => (world.backends.table.resolve source fallback, world)
  | .clock => (world.backends.now, world)

/-- The surroundings of a background run, which sees in the registry whether it was
    cancelled. -/
def behind (id : RunId) : Surroundings World :=
  { answer, isCancelled := fun world => world.registry.isCancelled id }

/-- The runs that wait get under way. -/
def begin (world : World) : List BackgroundRun × World :=
  let runs := world.pending.map fun run =>
    ⟨run.id, run.key, .start run.plan (world.registry.isCancelled run.id)⟩
  (runs, { world with pending := [] })

/-- A background run is carried on to its end, where its registration is taken away. -/
def finish (world : World) (run : BackgroundRun) : World :=
  let (_, after) := run.active.finish (behind run.id) world
  { after with registry := after.registry.finish run.key run.id }

/-- The producer of a background run has its turn. -/
def advance (run : BackgroundRun) (world : World) : Option BackgroundRun × World :=
  let (active, after) := run.active.advance (behind run.id) world
  (some { run with active }, after)

/-- The workers of a background run have their turn. -/
def work (run : BackgroundRun) (world : World) : Option BackgroundRun × World :=
  let (active, after) := run.active.work (behind run.id) world
  (some { run with active }, after)

/-- A background run has its own turn. If its pool has come to its end, the run ends. -/
def proceed (run : BackgroundRun) (world : World) : Option BackgroundRun × World :=
  if run.active.hasWorked then (none, world.finish run) else advance run world

/-- Background runs have their turns one after the other; those that have not ended are
    left. -/
def turns (turn : BackgroundRun → World → Option BackgroundRun × World) :
    List BackgroundRun → World → List BackgroundRun × World
  | [], world => ([], world)
  | run :: later, world =>
    let (left, world) := turn run world
    let (others, world) := turns turn later world
    (left.toList ++ others, world)

/-- Background runs take turns for a number of rounds. What is left after that is carried on
    to its end. -/
def takeTurns : Nat → List BackgroundRun → World → World
  | 0, runs, world => runs.foldl finish world
  | rounds + 1, runs, world =>
    let (runs, world) := turns proceed runs world
    let (runs, world) := turns work runs world
    takeTurns rounds runs world

/-- How many rounds some runs need at most. In each round a run queues a file or makes no
    more jobs, and it ends in the round after. -/
def rounds (runs : List BackgroundRun) : Nat :=
  (runs.flatMap fun run => run.active.tree.flatMap SourceFiles.files).length + 2

/-- Somebody waits, and all background runs come to their ends. The workers of the one who
    waits have their turn before those of the background runs. -/
def attend {α : Type} (own : World → α × World) (world : World) : α × World :=
  let (runs, world) := world.begin
  let (runs, world) := turns advance runs world
  let (value, world) := own world
  let (runs, world) := turns work runs world
  (value, takeTurns (rounds runs) runs world)

/-- Wait until all background runs have ended. -/
def settle (world : World) : World :=
  (attend (fun world => ((), world)) world).2

/-- Carry out a run and wait for it. -/
def carryOut (plan : SyncPlan) (surroundings : Surroundings World) (cancelled : Bool)
    (world : World) : Except SyncError RunOutcome × World :=
  let (run, world) := (ActiveRun.start plan cancelled).advance surroundings world
  let (run, world) := attend (run.work surroundings) world
  run.finish surroundings world

/-- Carry out a run that nobody can cancel. -/
def runAlone (plan : SyncPlan) (world : World) : Except SyncError RunOutcome × World :=
  carryOut plan { answer, isCancelled := fun _ => false } false world

/-- Carry out a run in the foreground, where effects of copies can cancel it. -/
def runForeground (plan : SyncPlan) (cancelled : Bool) (world : World) :
    Except SyncError RunOutcome × World :=
  carryOut plan { answer, isCancelled := foregroundCancelled } cancelled
    { world with foregroundCancelled := false }

/-- Register a run and let it wait. -/
def launch (world : World) (key : String) (plan : SyncPlan) : RunId × World :=
  let (id, registry) := world.registry.register key
  (id, { world with registry, pending := world.pending ++ [{ id, key, plan }] })

/-- Cancel the run of a key. -/
def stop (world : World) (key : String) : Option RunId × World :=
  let (stopped, registry) := world.registry.stop key
  (stopped, { world with registry })

/-- Carry out a program of the controller. -/
def control {α : Type} : Controlling α → World → α × World
  | .done value, world => (value, world)
  | .ask (.call call) next, world =>
    let (answer, world) := answer call world
    control (next answer) world
  | .ask (.sync plan) next, world =>
    let (outcome, world) := runAlone plan world
    control (next outcome) world
  | .ask (.launch key plan) next, world =>
    let (id, world) := world.launch key plan
    control (next id) world
  | .ask (.stop key) next, world =>
    let (stopped, world) := world.stop key
    control (next stopped) world
  | .ask (.await _) next, world => control (next ()) world.settle

end World

end DatasetSync.Scenario
