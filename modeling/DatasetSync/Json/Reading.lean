import DatasetSync.Json.Value

/-!
# Reading and writing records as JSON

A record is written as an object with one member for each field. A field belongs to one of
three regimes. A *required* field has to be there. A *defaulted* field may be missing; where
it is there, it has to have its own form. An *optional* field may be missing, and `null` means
the same.

Members that no field asks for are ignored. A record may also be given by position, as an
array of its fields in order, and a choice of a name as an object with that one member
holding `null`.
-/

namespace DatasetSync.Json

variable {α : Type}

/-- The text of a string. -/
def string? : Json → Option String
  | string value => some value
  | _ => none

/-- The truth value of a boolean. -/
def bool? : Json → Option Bool
  | bool value => some value
  | _ => none

/-- An integer between two bounds, both included. -/
def integerIn? (least greatest : Int) : Json → Option Int
  | integer value => if least ≤ value ∧ value ≤ greatest then some value else none
  | _ => none

/-- A natural number up to a bound, included. -/
def natural? (greatest : Nat) (json : Json) : Option Nat :=
  (json.integerIn? 0 greatest).map Int.toNat

/-- The elements of an array, each read by one rule. -/
def list? (read : Json → Option α) : Json → Option (List α)
  | array elements => elements.mapM read
  | _ => none

/-- The members of an object, their values read by one rule. -/
def table? (read : Json → Option α) : Json → Option (List (String × α))
  | object members => members.mapM fun member => (read member.2).map (member.1, ·)
  | _ => none

/-- The name that was chosen from an enumeration. -/
def choice? : Json → Option String
  | string name => some name
  | object [(name, null)] => some name
  | _ => none

/-- The members of a record with the given fields, written by name or by position. -/
def record? (fields : List String) : Json → Option Members
  | object members => some members
  | array elements => if elements.length ≤ fields.length then some (fields.zip elements) else none
  | _ => none

/-- The members of a record all of whose fields have to be given where it is written by
    position. -/
def fullRecord? (fields : List String) : Json → Option Members
  | object members => some members
  | array elements => if elements.length = fields.length then some (fields.zip elements) else none
  | _ => none

/-- A field that has to be there. -/
def Members.required (members : Members) (name : String) (read : Json → Option α) : Option α :=
  (members.value? name).bind read

/-- A field that has a value of its own where it is missing. -/
def Members.defaulted (members : Members) (name : String) (missing : α)
    (read : Json → Option α) : Option α :=
  match members.value? name with
  | none => some missing
  | some value => read value

/-- A field that may be missing or `null`. -/
def Members.optional (members : Members) (name : String) (read : Json → Option α) :
    Option (Option α) :=
  match members.value? name with
  | none => some none
  | some null => some none
  | some value => (read value).map some

/-- A member that is left out where there is no value. -/
def optionalMember (name : String) (value : Option Json) : Members :=
  match value with
  | none => []
  | some value => [(name, value)]

/-- A member with a text that is left out where it is empty. -/
def textMember (name text : String) : Members :=
  if text.isEmpty then [] else [(name, string text)]

/-- A member with a list that is left out where it is empty. -/
def listMember (name : String) (elements : List Json) : Members :=
  if elements.isEmpty then [] else [(name, array elements)]

/-- An optional text, with `null` for none. -/
def ofText? : Option String → Json
  | none => null
  | some text => string text

end DatasetSync.Json
