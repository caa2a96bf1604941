import DatasetSync.Ordered.Bisect
import DatasetSync.Resource.FileTree

/-!
# Steps of a single file

While a sync goes on, one file after the other moves to its next phase. The file is looked
up in a tree whose sources stand in order of their names and whose files stand in order of
their paths. A step that is not allowed, or a file that is not found, leaves the tree as it
was.
-/

namespace DatasetSync

/-- Why a file cannot take a step. -/
inductive TransitionError where
  | sourceNotFound (source : QualifiedName)
  | pathNotFound (sourceName path : String)
  | illegal (sourceName path : String) (before after : Phase)
deriving DecidableEq, Repr

namespace TransitionError

def message : TransitionError → String
  | sourceNotFound source => "source " ++ source.toString ++ " not found in status"
  | pathNotFound sourceName path => "path " ++ path ++ " not found in source " ++ sourceName
  | illegal sourceName path before after =>
    "wrong state for " ++ sourceName ++ "/" ++ path ++ ": from " ++ before.name ++ " to "
      ++ after.name

end TransitionError

/-- The record of a file that has taken a step. A sync that ended well has a time and no
    error; one that ended badly has an error. -/
def FileRecord.enter (file : FileRecord) (now : Timestamp) (phase : Phase)
    (errorMessage : String) : FileRecord :=
  match phase with
  | .succeeded => { file with phase, lastUpdateTime := some now, errorMessage := "" }
  | .failed => { file with phase, errorMessage }
  | _ => { file with phase }

namespace FileTree

/-- The position of the group of a source. Of the groups with its name, which stand side by
    side, the first one in its namespace counts; a group without a namespace is in the
    empty one. -/
def findSource? (tree : FileTree) (source : QualifiedName) : Option Nat :=
  let start := Ordered.partitionPoint (fun group => group.source.name < source.name) tree
  let sameName := (tree.drop start).takeWhile (·.source.name = source.name)
  (sameName.findIdx? (·.source.ns.getD "" = source.ns)).map (start + ·)

/-- The position of a path among the files of a group. -/
def findPath? (files : List FileRecord) (path : String) : Option Nat :=
  Ordered.bisect? (fun file => compare file.path path) files

/-- The tree in which one file has moved to another phase. -/
def advance (tree : FileTree) (now : Timestamp) (source : QualifiedName) (path : String)
    (phase : Phase) (errorMessage : String) : Except TransitionError FileTree :=
  match (tree.findSource? source).bind fun i => tree[i]?.map (i, ·) with
  | none => .error (.sourceNotFound source)
  | some (i, group) =>
    match (findPath? group.files path).bind fun j => group.files[j]?.map (j, ·) with
    | none => .error (.pathNotFound source.name path)
    | some (j, file) =>
      if file.phase.canBecome phase then
        let files := group.files.set j (file.enter now phase errorMessage)
        .ok (tree.set i { group with files })
      else .error (.illegal source.name path file.phase phase)

end FileTree

end DatasetSync
