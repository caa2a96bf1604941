import DatasetSync.Resource.Document

/-!
# Definitions of the resource kinds

How each kind is announced to a cluster: its names, the columns of its listing, and whether
its status is written apart from the rest.
-/

namespace DatasetSync

/-- A column of the listing of a kind. -/
structure Column where
  name : String
  type : String
  /-- Where in a document the value stands. -/
  path : String
deriving DecidableEq, Repr, Inhabited

/-- A resource kind as it is announced. -/
structure Definition where
  kind : String
  singular : String
  plural : String
  columns : List Column
  /-- Whether the status is written apart from metadata and spec. -/
  hasStatus : Bool
deriving DecidableEq, Repr, Inhabited

namespace Definition

/-- The full name of the definition. -/
def name (definition : Definition) : String := definition.plural ++ "." ++ Document.group

/-- Sources of files. -/
def datasource : Definition :=
  { kind := Reference.datasourceKind, singular := "datasource", plural := "datasources"
    columns := [], hasStatus := false }

/-- Versioned datasets. -/
def versionedDataset : Definition :=
  { kind := Reference.versionedDatasetKind, singular := "versioneddataset"
    plural := "versioneddatasets"
    columns := [
      { name := "Dataset", type := "string", path := ".spec.dataset.name" },
      { name := "Version", type := "string", path := ".spec.version" },
      { name := "Age", type := "date", path := ".metadata.creationTimestamp" }]
    hasStatus := true }

end Definition

end DatasetSync
