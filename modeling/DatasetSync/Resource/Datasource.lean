import DatasetSync.Resource.Document

/-!
# Datasources

A datasource says where its files lie. The engine reads datasources and never writes them.
-/

namespace DatasetSync

/-- A place in an object storage. -/
structure StorageLocation where
  bucket : String
  /-- One object, or a directory if it ends in a slash. -/
  object : Option String
deriving DecidableEq, Repr, Inhabited

namespace StorageLocation

def toJson (location : StorageLocation) : Json :=
  .object <|
    [("bucket", .string location.bucket)]
    ++ Json.optionalMember "object" (location.object.map .string)

def ofJson? (json : Json) : Option StorageLocation := do
  let members ← json.record? ["bucket", "object"]
  let bucket ← members.defaulted "bucket" "" Json.string?
  let object ← members.optional "object" Json.string?
  return { bucket, object }

end StorageLocation

/-- What a datasource declares. -/
structure Datasource where
  displayName : Option String
  location : Option StorageLocation
deriving DecidableEq, Repr, Inhabited

namespace Datasource

/-- The configured bucket; an empty name is none. -/
def bucket? (datasource : Datasource) : Option String :=
  (datasource.location.map StorageLocation.bucket).filter (!·.isEmpty)

def toJson (datasource : Datasource) : Json :=
  .object <|
    Json.optionalMember "displayName" (datasource.displayName.map .string)
    ++ Json.optionalMember "oss" (datasource.location.map StorageLocation.toJson)

def ofJson? (json : Json) : Option Datasource := do
  let members ← json.record? ["displayName", "oss"]
  let displayName ← members.optional "displayName" Json.string?
  let location ← members.optional "oss" StorageLocation.ofJson?
  return { displayName, location }

/-- Read what a stored datasource declares: its metadata has to be well formed as well. -/
def ofDocument? (json : Json) : Option Datasource := do
  let members ← json.record? ["metadata", "spec"]
  let _ ← members.required "metadata" Metadata.ofJson?
  members.required "spec" ofJson?

end Datasource

end DatasetSync
