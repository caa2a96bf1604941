import DatasetSync.Config.Settings
import DatasetSync.Yaml.Node

/-!
# Reading settings

Settings are read from JSON values and from YAML nodes by one description. What differs is
how the two forms write a section, a text, a number: `Form` is the table of these rules.
-/

namespace DatasetSync

/-- How values are written in nodes of a type. -/
structure Form (ν : Type) where
  /-- The members of a section with the given fields. -/
  members? : List String → ν → Option (List (String × ν))
  text? : ν → Option String
  /-- A text that may be absent. -/
  optionalText? : ν → Option (Option String)
  /-- A natural number up to a bound, included. -/
  natural? : Nat → ν → Option Nat
  bool? : ν → Option Bool
  /-- The name that was chosen from an enumeration. -/
  choice? : ν → Option String

namespace Form

/-- The rules of JSON: `null` stands for an absent text and for nothing else. -/
def json : Form Json where
  members? fields node := node.record? fields
  text? node := node.string?
  optionalText? node :=
    match node with
    | .null => some none
    | node => node.string?.map some
  natural? greatest node := node.natural? greatest
  bool? node := node.bool?
  choice? node := node.choice?

/-- The members of a mapping whose keys are scalars. -/
def yamlMembers? (entries : List (Yaml × Yaml)) : Option (List (String × Yaml)) :=
  entries.mapM fun (key, value) => key.text?.map (·, value)

/-- A section in YAML: one that is not written has no members, and in a mapping no field may be
    given twice. -/
def yamlSection? (fields : List String) : Yaml → Option (List (String × Yaml))
  | .mapping entries => do
    let members ← yamlMembers? entries
    if fields.all fun field => (members.filter (·.1 = field)).length ≤ 1 then some members
    else none
  | .plain "" => some []
  | _ => none

/-- The rules of YAML: every scalar is a text; numbers and truth values are plain. -/
def yaml : Form Yaml where
  members? := yamlSection?
  text? node := node.text?
  optionalText? node := if node.isNull then some none else node.text?.map some
  natural? greatest node := node.natural? greatest
  bool? node := node.bool?
  choice? node := node.text?

variable {ν α : Type}

/-- A field that has a value of its own where it is missing. -/
def field (members : List (String × ν)) (name : String) (missing : α) (read : ν → Option α) :
    Option α :=
  match members.find? (·.1 = name) with
  | none => some missing
  | some (_, node) => read node

/-- The greatest number that a count may have. -/
def greatestCount : Nat := UInt64.size - 1

/-- The greatest number of a port. -/
def greatestPort : Nat := UInt16.size - 1

def scheduler? (form : Form ν) (node : ν) : Option Pool.Sizing := do
  let members ← form.members? ["maxWorkers", "bufferSize"] node
  let standard := Settings.standard.scheduler
  let workers ← field members "maxWorkers" standard.workers (form.natural? greatestCount)
  let capacity ← field members "bufferSize" standard.capacity (form.natural? greatestCount)
  return { workers, capacity }

def storage? (form : Form ν) (node : ν) : Option StorageSettings := do
  let standard := Settings.standard.storage
  let members ← form.members?
    ["endpoint", "region", "accessKeyId", "secretAccessKey", "forcePathStyle"] node
  let endpoint ← field members "endpoint" standard.endpoint form.text?
  let region ← field members "region" standard.region form.text?
  let accessKeyId ← field members "accessKeyId" standard.accessKeyId form.optionalText?
  let secretAccessKey ← field members "secretAccessKey" standard.secretAccessKey form.optionalText?
  let forcePathStyle ← field members "forcePathStyle" standard.forcePathStyle form.bool?
  return { endpoint, region, accessKeyId, secretAccessKey, forcePathStyle }

def controller? (form : Form ν) (node : ν) : Option ControllerSettings := do
  let standard := Settings.standard.controller
  let members ← form.members? ["requeueAfterSeconds", "watchNamespace"] node
  let requeueAfterSeconds ←
    field members "requeueAfterSeconds" standard.requeueAfterSeconds (form.natural? greatestCount)
  let watchNamespace ← field members "watchNamespace" standard.watchNamespace form.optionalText?
  return { requeueAfterSeconds, watchNamespace }

def server? (form : Form ν) (node : ν) : Option Nat := do
  let members ← form.members? ["port"] node
  field members "port" Settings.standard.port (form.natural? greatestPort)

def settings? (form : Form ν) (node : ν) : Option Settings := do
  let standard := Settings.standard
  let members ← form.members? ["scheduler", "storage", "controller", "server", "logFormat"] node
  let scheduler ← field members "scheduler" standard.scheduler form.scheduler?
  let storage ← field members "storage" standard.storage form.storage?
  let controller ← field members "controller" standard.controller form.controller?
  let port ← field members "server" standard.port form.server?
  let logFormat ← field members "logFormat" standard.logFormat fun node =>
    (form.choice? node).bind LogFormat.ofName?
  return { scheduler, storage, controller, port, logFormat }

end Form

/-- Read settings from a JSON value. -/
def Settings.ofJson? (json : Json) : Option Settings := Form.json.settings? json

/-- Read settings from a YAML node. -/
def Settings.ofYaml? (node : Yaml) : Option Settings := Form.yaml.settings? node

end DatasetSync
