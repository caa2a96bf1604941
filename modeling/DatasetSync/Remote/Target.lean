/-!
# Targets of requests

A target is a path, which may be followed by a query behind a question mark and by a
fragment behind a number sign. A server is asked for the path; names that are put into a
target can therefore cut it short, or spoil it by a character that it may not hold.
-/

namespace DatasetSync.Remote.Target

/-- The greatest number of bytes in a target. -/
def greatestSize : Nat := 65534

/-- Whether a character may stand in a path. -/
def inPath (character : Char) : Bool :=
  0x21 ≤ character.toNat && !(['#', '<', '>', '?', '\x60'].contains character)

/-- Whether a character may stand in a query. -/
def inQuery (character : Char) : Bool :=
  0x21 ≤ character.toNat && !(['"', '#', '<', '>'].contains character)

/-- Whether these characters form the rest of a query, up to a fragment. -/
def isQuery (characters : List Char) : Bool :=
  (characters.takeWhile (· ≠ '#')).all inQuery

/-- The path of a target, if the target is well formed. -/
def path? (target : String) : Option String :=
  let path := target.toList.takeWhile fun character => character ≠ '?' && character ≠ '#'
  let wellFormed := path.all inPath &&
    match target.toList.drop path.length with
    | '?' :: query => isQuery query
    | _ => true
  if wellFormed && target.utf8ByteSize ≤ greatestSize then some (String.ofList path) else none

end DatasetSync.Remote.Target
