import DatasetSync.Json.Value

/-!
# Merge patches

A merge patch (RFC 7386) describes a change to a JSON value by another JSON value. A patch
that is not an object replaces its target. An object patches its target member by member:
`null` removes the member, any other value patches it in its turn, and members that are not
named stay as they are. Fields that a patch leaves out are therefore kept, not cleared.
-/

namespace DatasetSync.Json

/-- The members without the one of a name. -/
def Members.remove (members : Members) (name : String) : Members :=
  members.filter (·.1 ≠ name)

/-- The members with a value for a name: in the place of the member that has it, else at
    the end. -/
def Members.set (members : Members) (name : String) (value : Json) : Members :=
  match members with
  | [] => [(name, value)]
  | (key, former) :: rest =>
    if key = name then (key, value) :: rest else (key, former) :: Members.set rest name value

mutual

/-- The value that a patch makes of a target; a missing target counts as `null`. -/
def mergePatch (target : Json) (patch : Json) : Json :=
  match patch with
  | object changes => object (mergeMembers (target.members?.getD []) changes)
  | replacement => replacement

/-- The members that the members of a patch make of the members of its target. -/
def mergeMembers (members : Members) (changes : List (String × Json)) : Members :=
  match changes with
  | [] => members
  | (name, change) :: rest =>
    let changed :=
      match change with
      | null => members.remove name
      | change => members.set name (mergePatch ((members.value? name).getD null) change)
    mergeMembers changed rest

end

end DatasetSync.Json
