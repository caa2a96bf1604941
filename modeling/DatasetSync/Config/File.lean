import DatasetSync.Config.Reading
import DatasetSync.Yaml.Reader

/-!
# Settings in a file

The settings are mounted as a file that holds one YAML document. Two things can go wrong:
what the path leads to is no text, or the text does not describe settings.

The module opens no file. Whoever does so says what was found.
-/

namespace DatasetSync

/-- What a path leads to. -/
inductive FileContent where
  | absent
  | directory
  | bytes (content : ByteArray)

/-- Why a path leads to no text. -/
inductive ReadFault where
  | noSuchFile
  | isDirectory
  | notText
deriving DecidableEq, Repr

namespace ReadFault

def message : ReadFault → String
  | noSuchFile => "No such file or directory (os error 2)"
  | isDirectory => "Is a directory (os error 21)"
  | notText => "stream did not contain valid UTF-8"

end ReadFault

namespace FileContent

/-- The text of a file, which is kept in UTF-8. -/
def text : FileContent → Except ReadFault String
  | absent => .error .noSuchFile
  | directory => .error .isDirectory
  | bytes content =>
    match String.fromUTF8? content with
    | some text => .ok text
    | none => .error .notText

end FileContent

/-- Why no settings could be loaded. -/
inductive LoadError where
  | unreadable (path : String) (fault : ReadFault)
  | malformed
deriving DecidableEq, Repr

namespace LoadError

def message : LoadError → String
  | unreadable path fault => "Failed to read config file " ++ path ++ ": " ++ fault.message
  | malformed => "Failed to parse config YAML"

end LoadError

namespace Settings

/-- Load settings from what was found under a path. -/
def load (path : String) (found : FileContent) : Except LoadError Settings :=
  match found.text with
  | .error fault => .error (.unreadable path fault)
  | .ok text =>
    match (Yaml.ofText? text).bind Settings.ofYaml? with
    | some settings => .ok settings
    | none => .error .malformed

end Settings

end DatasetSync
