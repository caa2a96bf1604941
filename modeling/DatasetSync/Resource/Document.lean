import DatasetSync.Ordered.Map
import DatasetSync.Resource.Condition
import DatasetSync.Resource.FileTree

/-!
# Versioned datasets

A versioned dataset is a document of three parts. Its *metadata* names it and carries the
token of its current version in the store, its *spec* declares which files the version is
made of, and its *status* reports how far the sync of those files has come.
-/

namespace DatasetSync

/-- Files that are declared to come from one source. -/
structure FileGroup where
  source : Reference
  /-- Paths in the bucket of the source. -/
  paths : List String
deriving DecidableEq, Repr, Inhabited

namespace FileGroup

def toJson (group : FileGroup) : Json :=
  .object [("source", group.source.toJson), ("paths", .array (group.paths.map .string))]

def ofJson? (json : Json) : Option FileGroup := do
  let members ← json.record? ["source", "paths"]
  let source ← members.required "source" Reference.ofJson?
  let paths ← members.defaulted "paths" [] (Json.list? Json.string?)
  return { source, paths }

end FileGroup

/-- What a version is declared to consist of. -/
structure Spec where
  /-- The dataset that the version belongs to; its namespace is the destination bucket. -/
  dataset : Reference
  /-- The name of the version, one segment of its object keys. -/
  version : String
  /-- An earlier version whose objects this one starts from. -/
  inheritedFrom : Option String
  fileGroups : List FileGroup
  released : Bool
deriving DecidableEq, Repr, Inhabited

namespace Spec

/-- The parent version; an empty name is none. -/
def parent? (spec : Spec) : Option String := spec.inheritedFrom.filter (!·.isEmpty)

def toJson (spec : Spec) : Json :=
  .object <|
    [("dataset", spec.dataset.toJson), ("version", .string spec.version)]
    ++ Json.optionalMember "inheritedFrom" (spec.inheritedFrom.map .string)
    ++ [("fileGroups", .array (spec.fileGroups.map FileGroup.toJson)),
        ("released", .bool spec.released)]

def ofJson? (json : Json) : Option Spec := do
  let members ←
    json.record? ["dataset", "version", "inheritedFrom", "fileGroups", "released"]
  let dataset ← members.required "dataset" Reference.ofJson?
  let version ← members.required "version" Json.string?
  let inheritedFrom ← members.optional "inheritedFrom" Json.string?
  let fileGroups ← members.defaulted "fileGroups" [] (Json.list? FileGroup.ofJson?)
  let released ← members.defaulted "released" false Json.bool?
  return { dataset, version, inheritedFrom, fileGroups, released }

end Spec

/-- How far the sync of a version has come. -/
structure Status where
  conditions : List Condition
  files : FileTree
deriving DecidableEq, Repr, Inhabited

namespace Status

/-- The status of a version that was never looked at. -/
def initial : Status := ⟨[], []⟩

/-- The report on readiness. -/
def ready? (status : Status) : Option Condition := Condition.findReady? status.conditions

/-- The status with one more condition set. -/
def setCondition (status : Status) (condition : Condition) : Status :=
  { status with conditions := condition.set status.conditions }

def toJson (status : Status) : Json :=
  .object <|
    Json.listMember "conditions" (status.conditions.map Condition.toJson)
    ++ Json.listMember "files" (status.files.map SourceFiles.toJson)

def ofJson? (json : Json) : Option Status := do
  let members ← json.record? ["conditions", "files"]
  let conditions ← members.defaulted "conditions" [] (Json.list? Condition.ofJson?)
  let files ← members.defaulted "files" [] FileTree.ofJson?
  return { conditions, files }

end Status

/-- A table from texts to texts. -/
abbrev Labels := OrderedMap String String

namespace Labels

def toJson (labels : Labels) : Json :=
  .object (labels.toList.map fun entry => (entry.1, .string entry.2))

def ofJson? (json : Json) : Option Labels :=
  (json.table? Json.string?).map OrderedMap.ofList

end Labels

/-- The part of a document that every kind of resource has. -/
structure Metadata where
  name : Option String
  /-- The stem from which a name is to be made. -/
  generateName : Option String
  /-- The namespace. -/
  ns : Option String
  /-- The token of the stored version. -/
  resourceVersion : Option String
  uid : Option String
  labels : Option Labels
  annotations : Option Labels
  /-- Marks of those who have work to do before the document may go. -/
  finalizers : Option (List String)
  generation : Option Int
  /-- When the document was marked deleted. -/
  deletionTimestamp : Option Timestamp
deriving DecidableEq, Repr, Inhabited

namespace Metadata

/-- Metadata without any field. -/
def empty : Metadata :=
  { name := none, generateName := none, ns := none, resourceVersion := none, uid := none
    labels := none, annotations := none, finalizers := none, generation := none
    deletionTimestamp := none }

/-- The name, or the stem of one, or nothing. -/
def anyName (metadata : Metadata) : String :=
  (metadata.name <|> metadata.generateName).getD ""

def toJson (metadata : Metadata) : Json :=
  .object <|
    Json.optionalMember "annotations" (metadata.annotations.map Labels.toJson)
    ++ Json.optionalMember "deletionTimestamp" (metadata.deletionTimestamp.map .string)
    ++ Json.optionalMember "finalizers"
        (metadata.finalizers.map fun names => .array (names.map .string))
    ++ Json.optionalMember "generateName" (metadata.generateName.map .string)
    ++ Json.optionalMember "generation" (metadata.generation.map .integer)
    ++ Json.optionalMember "labels" (metadata.labels.map Labels.toJson)
    ++ Json.optionalMember "name" (metadata.name.map .string)
    ++ Json.optionalMember "namespace" (metadata.ns.map .string)
    ++ Json.optionalMember "resourceVersion" (metadata.resourceVersion.map .string)
    ++ Json.optionalMember "uid" (metadata.uid.map .string)

/-- Metadata is only ever written by name. -/
def ofJson? (json : Json) : Option Metadata := do
  let members ← json.members?
  let name ← members.optional "name" Json.string?
  let generateName ← members.optional "generateName" Json.string?
  let ns ← members.optional "namespace" Json.string?
  let resourceVersion ← members.optional "resourceVersion" Json.string?
  let uid ← members.optional "uid" Json.string?
  let labels ← members.optional "labels" Labels.ofJson?
  let annotations ← members.optional "annotations" Labels.ofJson?
  let finalizers ← members.optional "finalizers" (Json.list? Json.string?)
  let generation ←
    members.optional "generation" (Json.integerIn? Int64.minValue.toInt Int64.maxValue.toInt)
  let deletionTimestamp ←
    members.optional "deletionTimestamp" (·.string?.bind Timestamp.ofRfc3339?)
  return {
    name, generateName, ns, resourceVersion, uid, labels, annotations, finalizers, generation
    deletionTimestamp }

end Metadata

/-- A versioned dataset as it is stored. -/
structure Document where
  metadata : Metadata
  spec : Spec
  status : Option Status
deriving DecidableEq, Repr, Inhabited

namespace Document

/-- The group of the resource kinds. -/
def group : String := "arcadia.kubeagi.k8s.com.cn"

/-- The version of the group. -/
def apiVersion : String := "v1alpha1"

/-- The namespace of the document itself; empty if it has none. -/
def ns (document : Document) : String := document.metadata.ns.getD ""

/-- The name of the document; empty if it has none. -/
def name (document : Document) : String := document.metadata.anyName

/-- The key under which the document is stored. -/
def key (document : Document) : QualifiedName := ⟨document.ns, document.name⟩

/-- The namespace of the dataset, which is also the destination bucket. -/
def datasetNs (document : Document) : String :=
  (document.spec.dataset.ns <|> document.metadata.ns).getD ""

/-- The name of the dataset. -/
def datasetName (document : Document) : String := document.spec.dataset.name

/-- What the status reports on the files. -/
def files (document : Document) : FileTree := (document.status.map Status.files).getD []

/-- The token of the stored version that this copy was read from. -/
def versionToken (document : Document) : Option String := document.metadata.resourceVersion

/-- Whether the document was marked deleted. -/
def isDeleting (document : Document) : Bool := document.metadata.deletionTimestamp.isSome

/-- The finalizers; none if the field is missing. -/
def finalizers (document : Document) : List String := document.metadata.finalizers.getD []

/-- The status, or that of a version that was never looked at. -/
def statusOrInitial (document : Document) : Status := document.status.getD .initial

def toJson (document : Document) : Json :=
  .object <|
    [("apiVersion", .string (group ++ "/" ++ apiVersion)),
     ("kind", .string Reference.versionedDatasetKind),
     ("metadata", document.metadata.toJson), ("spec", document.spec.toJson)]
    ++ Json.optionalMember "status" (document.status.map Status.toJson)

def ofJson? (json : Json) : Option Document := do
  let members ← json.fullRecord? ["metadata", "spec", "status"]
  let metadata ← members.required "metadata" Metadata.ofJson?
  let spec ← members.required "spec" Spec.ofJson?
  let status ← members.optional "status" Status.ofJson?
  return { metadata, spec, status }

end Document

end DatasetSync
