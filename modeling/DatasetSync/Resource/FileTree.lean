import DatasetSync.Resource.Reference
import DatasetSync.Text.Timestamp

/-!
# The files of a version

A version draws its files from several sources. What is known about each file is kept in a
tree of two levels: the sources, and under each source its files by path.
-/

namespace DatasetSync

/-- How far the sync of one file has come. -/
inductive Phase where
  | pending
  | processing
  | succeeded
  | failed
  | skipped
deriving DecidableEq, Repr, Inhabited

namespace Phase

def name : Phase → String
  | .pending => "Pending"
  | .processing => "Processing"
  | .succeeded => "Succeeded"
  | .failed => "Failed"
  | .skipped => "Skipped"

def ofName? : String → Option Phase
  | "Pending" => some .pending
  | "Processing" => some .processing
  | "Succeeded" => some .succeeded
  | "Failed" => some .failed
  | "Skipped" => some .skipped
  | _ => none

def ofJson? (json : Json) : Option Phase := json.choice?.bind ofName?

/-- The steps that a sync takes: it starts, and it ends well or badly. -/
def canBecome : Phase → Phase → Bool
  | .pending, .processing => true
  | .processing, .succeeded => true
  | .processing, .failed => true
  | _, _ => false

/-- Whether nothing is left to do for a file. -/
def isSettled : Phase → Bool
  | .succeeded => true
  | .skipped => true
  | _ => false

end Phase

/-- What is known about one file. -/
structure FileRecord where
  path : String
  phase : Phase
  checksum : String
  /-- The time of the last sync that ended well. -/
  lastUpdateTime : Option Timestamp
  /-- What went wrong in the last sync. -/
  errorMessage : String
deriving DecidableEq, Repr, Inhabited

namespace FileRecord

/-- A file about which only its phase is known. -/
def blank (path : String) (phase : Phase) : FileRecord :=
  { path, phase, checksum := "", lastUpdateTime := none, errorMessage := "" }

def toJson (file : FileRecord) : Json :=
  .object <|
    [("path", .string file.path), ("phase", .string file.phase.name)]
    ++ Json.textMember "checksum" file.checksum
    ++ Json.optionalMember "lastUpdateTime" (file.lastUpdateTime.map .string)
    ++ Json.textMember "errMessage" file.errorMessage

def ofJson? (json : Json) : Option FileRecord := do
  let members ← json.record? ["path", "phase", "checksum", "lastUpdateTime", "errMessage"]
  let path ← members.required "path" Json.string?
  let phase ← members.defaulted "phase" .pending Phase.ofJson?
  let checksum ← members.defaulted "checksum" "" Json.string?
  let lastUpdateTime ← members.optional "lastUpdateTime" Json.string?
  let errorMessage ← members.defaulted "errMessage" "" Json.string?
  return { path, phase, checksum, lastUpdateTime, errorMessage }

end FileRecord

/-- The files that are drawn from one source. -/
structure SourceFiles where
  source : Reference
  files : List FileRecord
deriving DecidableEq, Repr, Inhabited

namespace SourceFiles

def toJson (group : SourceFiles) : Json :=
  .object [
    ("sourceRef", group.source.toJson),
    ("files", .array (group.files.map FileRecord.toJson))]

def ofJson? (json : Json) : Option SourceFiles := do
  let members ← json.record? ["sourceRef", "files"]
  let source ← members.required "sourceRef" Reference.ofJson?
  let files ← members.defaulted "files" [] (Json.list? FileRecord.ofJson?)
  return { source, files }

end SourceFiles

/-- What is known about the files of a version, source by source. -/
abbrev FileTree := List SourceFiles

namespace FileTree

/-- All files of a tree, in stored order. -/
def allFiles (tree : FileTree) : List FileRecord := tree.flatMap SourceFiles.files

def toJson (tree : FileTree) : Json := .array (tree.map SourceFiles.toJson)

def ofJson? : Json → Option FileTree := Json.list? SourceFiles.ofJson?

end FileTree

end DatasetSync
