import DatasetSync.Controller.Reconcile
import DatasetSync.Text.Blank

/-!
# Settings of the controller

Every setting has a value of its own where it is not given. Settings that are well formed may
still be unusable: a pool without workers, a storage without an endpoint, one half of a pair
of credentials.
-/

namespace DatasetSync

/-- The form of log lines. -/
inductive LogFormat where
  | text
  | json
deriving DecidableEq, Repr, Inhabited

namespace LogFormat

def name : LogFormat → String
  | text => "text"
  | json => "json"

def ofName? : String → Option LogFormat
  | "text" => some text
  | "json" => some json
  | _ => none

end LogFormat

/-- How to reach the object storage. -/
structure StorageSettings where
  endpoint : String
  region : String
  accessKeyId : Option String
  secretAccessKey : Option String
  /-- Whether the bucket is named in the path of a request. -/
  forcePathStyle : Bool
deriving DecidableEq, Repr

/-- How the controller watches documents. -/
structure ControllerSettings where
  /-- The delay in seconds before a failed look is repeated. -/
  requeueAfterSeconds : Nat
  /-- The one namespace to watch; all of them if there is none. -/
  watchNamespace : Option String
deriving DecidableEq, Repr

/-- All settings. -/
structure Settings where
  scheduler : Pool.Sizing
  storage : StorageSettings
  controller : ControllerSettings
  /-- The port of the health endpoint. -/
  port : Nat
  logFormat : LogFormat
deriving DecidableEq, Repr

namespace Settings

/-- The settings where nothing is given. -/
def standard : Settings :=
  { scheduler := .standard
    storage :=
      { endpoint := "", region := "us-east-1", accessKeyId := none, secretAccessKey := none
        forcePathStyle := true }
    controller := { requeueAfterSeconds := 30, watchNamespace := none }
    port := 8080
    logFormat := .text }

instance : Inhabited Settings := ⟨standard⟩

/-- Why settings cannot be used. -/
inductive Fault where
  | noWorkers
  | noBuffer
  | noEndpoint
  | halfCredentials
deriving DecidableEq, Repr

def Fault.message : Fault → String
  | noWorkers => "scheduler.maxWorkers must be at least 1"
  | noBuffer => "scheduler.bufferSize must be at least 1"
  | noEndpoint => "storage.endpoint is not configured. Provide the S3/MinIO endpoint URL."
  | halfCredentials => "storage.accessKeyId and storage.secretAccessKey must be set together"

/-- The first reason for which settings cannot be used. -/
def fault? (settings : Settings) : Option Fault :=
  if settings.scheduler.workers = 0 then some .noWorkers
  else if settings.scheduler.capacity = 0 then some .noBuffer
  else if Text.isBlank settings.storage.endpoint then some .noEndpoint
  else if settings.storage.accessKeyId.isSome ≠ settings.storage.secretAccessKey.isSome then
    some .halfCredentials
  else none

/-- The limits and delays of the controller. -/
def policy (settings : Settings) : Policy :=
  { sizing := settings.scheduler, requeueAfter := settings.controller.requeueAfterSeconds }

def toJson (settings : Settings) : Json :=
  .object [
    ("scheduler", .object [
      ("maxWorkers", .integer settings.scheduler.workers),
      ("bufferSize", .integer settings.scheduler.capacity)]),
    ("storage", .object [
      ("endpoint", .string settings.storage.endpoint),
      ("region", .string settings.storage.region),
      ("accessKeyId", .ofText? settings.storage.accessKeyId),
      ("secretAccessKey", .ofText? settings.storage.secretAccessKey),
      ("forcePathStyle", .bool settings.storage.forcePathStyle)]),
    ("controller", .object [
      ("requeueAfterSeconds", .integer settings.controller.requeueAfterSeconds),
      ("watchNamespace", .ofText? settings.controller.watchNamespace)]),
    ("server", .object [("port", .integer settings.port)]),
    ("logFormat", .string settings.logFormat.name)]

end Settings

end DatasetSync
