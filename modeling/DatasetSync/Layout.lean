import DatasetSync.Text.Affix

/-!
# Where the objects of a version lie

All objects of a version have keys with one prefix, which names the dataset and the
version. Files that a version takes over from its parent are listed under a source of
their own, whose name carries the parent version.
-/

namespace DatasetSync.Layout

/-- The prefix of the keys of a version. -/
def versionPrefix (dataset version : String) : String :=
  "dataset/" ++ dataset ++ "/" ++ version ++ "/"

/-- A path without one leading slash. -/
def relative (path : String) : String := (Text.stripPrefix? "/" path).getD path

/-- The key of a file of a version. -/
def objectKey (dataset version path : String) : String :=
  versionPrefix dataset version ++ relative path

/-- What the names of the sources of inherited files start with. -/
def inheritedMark : String := "inherited-from-"

/-- The name of the source of the files that come from a version. -/
def lineageName (version : String) : String := inheritedMark ++ version

/-- The version that a source of inherited files names; nothing for any other source. -/
def lineageParent? (sourceName : String) : Option String :=
  Text.stripPrefix? inheritedMark sourceName

/-- The parent is read back from the name of a lineage. The mark stands in front of the version and
nowhere else, so taking it off leaves the version, whatever characters that has. -/
@[simp] theorem lineageParent?_lineageName (version : String) :
    lineageParent? (lineageName version) = some version :=
  Text.stripPrefix?_eq_some_iff.mpr rfl

end DatasetSync.Layout
