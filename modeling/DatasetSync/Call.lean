import DatasetSync.Program
import DatasetSync.Store.Object
import DatasetSync.Store.Resolver

/-!
# Calls on the surroundings of the engine

The engine asks an object store, a document store, a resolver and a clock. Every call is one
step: between two calls others may act. `Backends` answers all calls from memory.
-/

namespace DatasetSync

/-- A call of the engine. -/
inductive Call where
  | object (call : ObjectCall)
  | document (call : DocumentCall)
  /-- Find the bucket of a source, whose namespace may have to be supplied. -/
  | resolve (source : Reference) (fallback : String)
  | clock
deriving DecidableEq, Repr

/-- What a call answers. -/
abbrev Call.Answer : Call → Type
  | object call => call.Answer
  | document call => call.Answer
  | resolve _ _ => Except StoreError String
  | clock => Timestamp

/-- The interface of the calls. -/
abbrev Calls : Interface := ⟨Call, Call.Answer⟩

/-- A program that makes calls. -/
abbrev Calling := Program Calls

namespace Call

def bucketExists (bucket : String) : Calling (Except StorageError Bool) :=
  Program.request Calls (.object (.bucketExists bucket))

def makeBucket (bucket : String) : Calling (Except StorageError Unit) :=
  Program.request Calls (.object (.makeBucket bucket))

def copyObject (destination source : ObjectAddress) : Calling (Except StorageError Unit) :=
  Program.request Calls (.object (.copyObject destination source))

def removeObject (address : ObjectAddress) : Calling (Except StorageError Unit) :=
  Program.request Calls (.object (.removeObject address))

def listObjects (bucket leading : String) (recursive : Bool) :
    Calling (Except StorageError (List ObjectInfo)) :=
  Program.request Calls (.object (.listObjects bucket leading recursive))

def getDocument (key : QualifiedName) : Calling (Except StoreError (Option Document)) :=
  Program.request Calls (.document (.get key))

def updateDocument (document : Document) : Calling (Except StoreError Document) :=
  Program.request Calls (.document (.update document))

def patchStatus (key : QualifiedName) (token : String) (status : Status) :
    Calling (Except StoreError Unit) :=
  Program.request Calls (.document (.patchStatus key token status))

def resolveBucket (source : Reference) (fallback : String) :
    Calling (Except StoreError String) :=
  Program.request Calls (.resolve source fallback)

def readClock : Calling Timestamp :=
  Program.request Calls .clock

end Call

/-- Carry out a program from start to end, answering its calls by a rule. -/
def Calling.perform {σ α : Type} (answer : (call : Call) → σ → call.Answer × σ) :
    Calling α → σ → α × σ
  | .done value, state => (value, state)
  | .ask call next, state =>
    let (reply, state) := answer call state
    perform answer (next reply) state

/-- The surroundings of the engine, in memory. -/
structure Backends where
  objects : ObjectStore
  documents : DocumentStore
  table : BucketTable
  /-- What the clock shows. -/
  now : Timestamp
deriving DecidableEq, Repr, Inhabited

/-- Answer a call. -/
def Backends.answer (call : Call) (backends : Backends) : call.Answer × Backends :=
  match call with
  | .object call =>
    let (answer, objects) := backends.objects.answer call
    (answer, { backends with objects })
  | .document call =>
    let (answer, documents) := backends.documents.answer call
    (answer, { backends with documents })
  | .resolve source fallback => (backends.table.resolve source fallback, backends)
  | .clock => (backends.now, backends)

end DatasetSync
