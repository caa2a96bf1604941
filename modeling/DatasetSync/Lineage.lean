import DatasetSync.Call
import DatasetSync.Layout

/-!
# The files of a parent version

A version that inherits from another one starts from all objects that the parent holds.
-/

namespace DatasetSync.Document

/-- The paths of listed objects relative to a prefix, smallest first. The prefix itself may
    be an object as well; it has no path. -/
def lineagePaths (leading : String) (objects : List ObjectInfo) : List String :=
  let relative := objects.filterMap fun object => Text.stripPrefix? leading object.key
  (OrderedSet.ofList (relative.filter (!·.isEmpty))).toList

/-- List the paths of all objects that the parent version holds; nothing is asked if there
    is no parent. -/
def listLineage (document : Document) : Calling (Except StorageError (List String)) := do
  match document.spec.parent? with
  | none => return .ok []
  | some parent =>
    let leading := Layout.versionPrefix document.datasetName parent
    return (← Call.listObjects document.datasetNs leading true).map (lineagePaths leading)

end DatasetSync.Document
