import DatasetSync.FileTree.Readiness
import DatasetSync.Layout
import DatasetSync.Ordered.Set
import DatasetSync.Ordered.Sort

/-!
# Declared and recorded files

The spec declares which files a version is made of; together with the paths that its parent
version holds they make the target. The status records what is known about files so far.
`Document.reconcile` brings both together: a file that is in both keeps its record, a file
that is new starts to be processed, and a file that is only recorded is to be removed.

Only the set of declared paths of each source counts. The target and the removals are
listed by source name, then by namespace.
-/

namespace DatasetSync

/-- What comes of comparing declared with recorded files. -/
structure Outcome where
  /-- A source or a file is in the target that was not recorded. -/
  statusChanged : Bool
  /-- The status to store. -/
  target : Status
  /-- Recorded files that are no longer declared. -/
  deleted : FileTree
deriving DecidableEq, Repr

/-- The records of one source: the reference under which it was first recorded, and its
    files by path. -/
abbrev RecordedSource := Reference × OrderedMap String FileRecord

/-- Everything that is recorded, by source. -/
abbrev Recorded := OrderedMap QualifiedName RecordedSource

namespace FileTree

/-- The order in which sources are listed: by name, then by namespace. -/
def rank (fallback : String) (group : SourceFiles) : QualifiedName :=
  ⟨group.source.name, group.source.nsOr fallback⟩

/-- The groups in the order in which they are stored. -/
def sorted (fallback : String) (tree : FileTree) : FileTree :=
  Ordered.sortOn (rank fallback) tree

/-- Files that are about to be synced. -/
def fresh (paths : OrderedSet String) : List FileRecord :=
  paths.toList.map (FileRecord.blank · .processing)

/-- The declared paths of each source. -/
def declaredPaths (fallback : String) (groups : List FileGroup) :
    OrderedMap QualifiedName (OrderedSet String) :=
  groups.foldl (fun declared group =>
    declared.alter (group.source.qualified fallback) fun paths =>
      (paths.getD .empty).insertMany group.paths) .empty

/-- The declared files: one group for each source, without repetitions. -/
def declared (fallback : String) (groups : List FileGroup) : FileTree :=
  (declaredPaths fallback groups).toList.map fun (source, paths) =>
    { source := { apiGroup := none, kind := Reference.datasourceKind, name := source.name
                  ns := some source.ns }
      files := fresh paths }

/-- The group of the inherited files. A version without a parent has the group as well,
    under its own name and without files. -/
def inherited (fallback : String) (spec : Spec) (lineage : List String) : SourceFiles :=
  let source (version : String) : Reference :=
    { apiGroup := none, kind := Reference.versionedDatasetKind, name := Layout.lineageName version
      ns := some fallback }
  match spec.parent? with
  | some parent => { source := source parent, files := fresh (.ofList lineage) }
  | none => { source := source spec.version, files := [] }

/-- The recorded files by source and path. Of two records of one path the later counts. -/
def recorded (fallback : String) (tree : FileTree) : Recorded :=
  tree.foldl (fun known group =>
    known.alter (group.source.qualified fallback) fun source =>
      let (reference, files) := source.getD (group.source, .empty)
      (reference, group.files.foldl (fun files file => files.insert file.path file) files)) .empty

/-- Files of which the recorded ones have their records, the records that are left over,
    and whether a file was not recorded. -/
structure Adoption where
  files : List FileRecord
  rest : OrderedMap String FileRecord
  anyNew : Bool

/-- Give each file the record of its path. -/
def adopt (known : OrderedMap String FileRecord) : List FileRecord → Adoption
  | [] => ⟨[], known, false⟩
  | file :: files =>
    match known.get? file.path with
    | some existing =>
      let later := adopt (known.erase file.path) files
      { later with files := existing :: later.files }
    | none =>
      let later := adopt known files
      { later with files := file :: later.files, anyNew := true }

/-- A target tree in which recorded files have their records, the records that are left
    over, and whether anything in the tree was not recorded. -/
structure Merge where
  tree : FileTree
  rest : Recorded
  anyNew : Bool

/-- Give each file of a target the record of its source and path. -/
def merge (fallback : String) (known : Recorded) : FileTree → Merge
  | [] => ⟨[], known, false⟩
  | group :: groups =>
    let source := group.source.qualified fallback
    match known.get? source with
    | none =>
      let later := merge fallback known groups
      { later with tree := group :: later.tree, anyNew := true }
    | some (reference, files) =>
      let adopted := adopt files group.files
      let later := merge fallback (known.insert source (reference, adopted.rest)) groups
      { later with
        tree := { group with files := adopted.files } :: later.tree
        anyNew := adopted.anyNew || later.anyNew }

/-- The records that are left over, as a tree without empty groups. -/
def leftOver (rest : Recorded) : FileTree :=
  (rest.values.filter (!·.2.isEmpty)).map fun (source, files) => { source, files := files.values }

end FileTree

namespace Document

/-- Compare what a document declares, and what its parent version holds, with what is
    recorded. -/
def reconcile (document : Document) (now : Timestamp) (lineage : List String) : Outcome :=
  let status := document.statusOrInitial
  let ns := document.ns
  let target :=
    FileTree.declared ns document.spec.fileGroups
      ++ [FileTree.inherited ns document.spec lineage]
  let merged := FileTree.merge ns (FileTree.recorded ns status.files) target
  let conditions :=
    match FileTree.syncingCondition? now status.conditions with
    | some condition => condition.set status.conditions
    | none => status.conditions
  { statusChanged := merged.anyNew
    target := { conditions, files := FileTree.sorted ns merged.tree }
    deleted := FileTree.sorted ns (FileTree.leftOver merged.rest) }

/-- The comparison for a document that is to be deleted: nothing is declared any more. -/
def reconcileDeleted (document : Document) : Outcome :=
  let status := document.statusOrInitial
  { statusChanged := false, target := { status with files := [] }, deleted := status.files }

end Document

end DatasetSync
