import DatasetSync.Resource.Document

/-!
# Readiness of a file tree

Two reports are made on readiness. Before a sync the report says that files are on their
way. After it the report sums up the tree: the first failed file decides, else the version
is ready once no file is left.
-/

namespace DatasetSync.FileTree

/-- The report to make before a sync. There is none where the version is already ready, or
    where other aspects are reported on but readiness is not. -/
def syncingCondition? (now : Timestamp) (conditions : List Condition) : Option Condition :=
  if conditions.isEmpty then
    some (.ready now .false Condition.syncingReason "sync files.")
  else
    match Condition.findReady? conditions with
    | none => none
    | some ready =>
      if ready.holds then none
      else
        some (.ready now .false Condition.syncingReason
          "file synchronization failed, try again")

/-- The report that sums up a list of files. -/
def summaryOf (now : Timestamp) (files : List FileRecord) : Condition :=
  match files.find? (·.phase = .failed) with
  | some file =>
    .ready now .false Condition.failedReason (file.path ++ " sync failed, " ++ file.errorMessage)
  | none =>
    if files.all (·.phase.isSettled) then .ready now .true Condition.successReason ""
    else .ready now .false Condition.syncingReason "sync files."

/-- The report that sums up a tree. Of several failed files the first in stored order is
    named, so that one tree has one report. -/
def summary (now : Timestamp) (tree : FileTree) : Condition := summaryOf now tree.allFiles

end DatasetSync.FileTree
