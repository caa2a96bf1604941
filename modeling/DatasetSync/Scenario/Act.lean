import DatasetSync.Scenario.World

/-!
# Acts of a scenario

A scenario is a sequence of acts upon a world. Some acts are those of other clients, some
prepare what is going to happen, and some set the engine to work. Each act ends with a
report.
-/

namespace DatasetSync.Scenario

/-- Which version of a document an act works on. -/
inductive Selection where
  /-- The copy that was kept under a name. -/
  | saved (name : String)
  | given (document : Document)
  /-- The stored version. -/
  | stored
deriving DecidableEq, Repr

/-- The calls on the document store that can be made to fail. -/
inductive FaultyCall where
  | get
  | update
  | patchStatus
deriving DecidableEq, Repr

/-- A run that is carried out in the foreground. -/
structure ForegroundRun where
  mode : SyncMode
  /-- The files to remove; a copy takes those of its document. -/
  groups : FileTree
  sizing : Pool.Sizing
  /-- Whether the document is taken without its version token. -/
  withoutToken : Bool
  /-- Whether the run is cancelled before it starts. -/
  stopped : Bool
deriving DecidableEq, Repr

/-- An act. The key of an act is that of the document that it is about. -/
inductive Act where
  | insert (document : Document)
  /-- Keep a copy of the stored version under a name. -/
  | save (key : QualifiedName) (name : String)
  | intrude (intrusion : Intrusion)
  /-- Another client updates a document, with a spec and finalizers of its own if given. -/
  | update (key : QualifiedName) (selection : Selection) (spec : Option Spec)
      (finalizers : Option (List String))
  /-- Another client patches the status of the stored version. -/
  | patchStatus (key : QualifiedName) (status : Status)
  | putObject (address : ObjectAddress)
  | failKey (key message : String)
  | failBucket (bucket message : String)
  /-- Make a call of the engine fail from now on, or no longer. -/
  | setFault (call : FaultyCall) (error : Option StoreError)
  | setAfterGet (intrusion : Option Intrusion)
  /-- Set what happens after copies, and count copies from now. -/
  | setTriggers (triggers : List CopyTrigger)
  | run (key : QualifiedName) (selection : Selection) (run : ForegroundRun)
  /-- Look at a document once, and wait for background runs or not. -/
  | reconcile (key : QualifiedName) (selection : Selection) (waiting : Bool)
  | wait
  | stopRun (key : QualifiedName)
  /-- Look at a document and wait, again and again, until a round changes nothing. -/
  | converge (key : QualifiedName)
deriving DecidableEq, Repr

/-- What an act ends with. -/
inductive Report where
  | nothing
  /-- There was no document to work on. -/
  | absent
  | written (result : Except StoreError Unit)
  | ran (result : Except SyncError RunOutcome)
  | reconciled (result : Except ReconcileError Next)
  | stopped (run : Option RunId)
  /-- Whether a round changed nothing, and how each round ended. -/
  | converged (settled : Bool) (rounds : List (Except ReconcileError Next))

namespace World

/-- The selected version of a document. -/
def select? (world : World) (key : QualifiedName) : Selection → Option Document
  | .saved name => world.saved.get? name
  | .given document => some document
  | .stored => world.stored? key

/-- Keep a copy of the stored version; a document that is not there leaves the copy of
    that name alone. -/
def save (world : World) (key : QualifiedName) (name : String) : World :=
  match world.stored? key with
  | some document => { world with saved := world.saved.insert name document }
  | none => world

/-- Another client updates a document. -/
def updateBy (world : World) (document : Document) (spec : Option Spec)
    (finalizers : Option (List String)) : Except StoreError Unit × World :=
  let edited := { document with
    spec := spec.getD document.spec
    metadata := { document.metadata with
      finalizers := finalizers <|> document.metadata.finalizers } }
  let (result, documents) := world.backends.documents.update edited
  (result.map fun _ => (), world.withDocuments documents)

/-- Another client patches the status of the stored version. -/
def patchBy (world : World) (key : QualifiedName) (status : Status) :
    Except StoreError Unit × World :=
  let token := ((world.stored? key).bind Document.versionToken).getD ""
  let (result, documents) := world.backends.documents.patchStatus key token status
  (result, world.withDocuments documents)

/-- Make a call of the engine fail from now on, or no longer. -/
def setFault (world : World) (call : FaultyCall) (error : Option StoreError) : World :=
  let faults :=
    match call with
    | .get => { world.faults with get := error }
    | .update => { world.faults with update := error }
    | .patchStatus => { world.faults with patchStatus := error }
  { world with faults }

/-- The plan of a run in the foreground. -/
def planOf (run : ForegroundRun) (document : Document) : SyncPlan :=
  let document :=
    if run.withoutToken then
      { document with metadata := { document.metadata with resourceVersion := none } }
    else document
  match run.mode with
  | .copy => .copying document run.sizing
  | .remove => .removing document run.groups run.sizing

/-- Look at a document once, and wait for background runs or not. -/
def reconcile (world : World) (document : Document) (waiting : Bool) :
    Except ReconcileError Next × World :=
  let (result, after) := control (world.policy.reconcile document) world
  (result, if waiting then after.settle else after)

/-- Up to a number of rounds, each of which looks at the stored version and waits. -/
def converge (key : QualifiedName) :
    Nat → World → Bool × List (Except ReconcileError Next) × World
  | 0, world => (false, [], world)
  | rounds + 1, world =>
    match world.stored? key with
    | none => (true, [], world)
    | some document =>
      let (result, after) := world.reconcile document true
      if (after.stored? key).bind Document.versionToken = document.versionToken then
        (true, [result], after)
      else
        let (settled, later, last) := converge key rounds after
        (settled, result :: later, last)

/-- How many rounds are made before convergence is given up. -/
def maxRounds : Nat := 10

/-- Carry out an act. -/
def perform (world : World) : Act → Report × World
  | .insert document =>
    (.nothing, world.withDocuments (world.backends.documents.insert document).2)
  | .save key name => (.nothing, world.save key name)
  | .intrude intrusion => (.nothing, world.intrude intrusion)
  | .update key selection spec finalizers =>
    match world.select? key selection with
    | none => (.absent, world)
    | some document =>
      let (result, world) := world.updateBy document spec finalizers
      (.written result, world)
  | .patchStatus key status =>
    let (result, world) := world.patchBy key status
    (.written result, world)
  | .putObject address =>
    (.nothing, world.withObjects (world.backends.objects.putObject address.bucket address.key))
  | .failKey key message =>
    (.nothing, world.withObjects (world.backends.objects.failKey key message))
  | .failBucket bucket message =>
    (.nothing, world.withObjects (world.backends.objects.failBucket bucket message))
  | .setFault call error => (.nothing, world.setFault call error)
  | .setAfterGet intrusion => (.nothing, { world with afterGet := intrusion })
  | .setTriggers triggers => (.nothing, { world with triggers, copies := 0 })
  | .run key selection run =>
    match world.select? key selection with
    | none => (.absent, world)
    | some document =>
      let (result, world) := runForeground (planOf run document) run.stopped world
      (.ran result, world)
  | .reconcile key selection waiting =>
    match world.select? key selection with
    | none => (.absent, world)
    | some document =>
      let (result, world) := world.reconcile document waiting
      (.reconciled result, world)
  | .wait => (.nothing, world.settle)
  | .stopRun key =>
    let (stopped, world) := world.stop key.toString
    (.stopped stopped, world)
  | .converge key =>
    let (settled, rounds, world) := converge key maxRounds world
    (.converged settled rounds, world)

end World

end DatasetSync.Scenario
