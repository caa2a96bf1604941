import DatasetSync.Yaml.Node

/-!
# YAML tokens

Tokens carry what the columns of a text say: the beginning and the end of a block collection
are tokens, and so is the mark in front of a key, whether it is written or not. Behind the
tokens columns do not matter any more.
-/

namespace DatasetSync.Yaml

/-- A token. -/
inductive Token where
  /-- Three dashes, in front of a document. -/
  | documentStart
  /-- Three points, behind a document. -/
  | documentEnd
  /-- The beginning of a sequence that is marked by a column. -/
  | blockSequence
  | blockMapping
  /-- The end of a collection that is marked by a column. -/
  | blockEnd
  /-- The mark of an item in a block sequence. -/
  | dash
  | key
  | value
  | openBracket
  | closeBracket
  | openBrace
  | closeBrace
  | comma
  | scalar (node : Yaml)
deriving Repr, BEq, Inhabited

end DatasetSync.Yaml
