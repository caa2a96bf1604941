/-!
# JSON values

An object keeps its members in the order in which they were written, and a number
remembers whether it was written with a fraction: `5` is an integer, `5.0` is not.
-/

namespace DatasetSync

/-- A JSON value. -/
inductive Json where
  | null
  | bool (value : Bool)
  /-- A number without a fraction. -/
  | integer (value : Int)
  /-- A number with a fraction or an exponent: its digits times a power of ten. -/
  | decimal (digits : Int) (exponent : Int)
  | string (value : String)
  | array (elements : List Json)
  | object (members : List (String × Json))
deriving Repr, BEq, Inhabited

namespace Json

/-- The members of a JSON object. -/
abbrev Members := List (String × Json)

/-- The value of the first member with a name. -/
def Members.value? (members : Members) (name : String) : Option Json :=
  match members with
  | [] => none
  | (key, value) :: rest => if key = name then some value else Members.value? rest name

/-- The members of an object; another value has none. -/
def members? : Json → Option Members
  | object members => some members
  | _ => none

/-- The value of a member of an object. -/
def member? (json : Json) (name : String) : Option Json :=
  json.members?.bind (·.value? name)

end Json

end DatasetSync
