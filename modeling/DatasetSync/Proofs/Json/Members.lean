import DatasetSync.Json.MergePatch
import DatasetSync.Json.Reading

/-!
# Members of objects

What a name finds among the members of an object, after a member was set, after a patch, and
in an object whose members are put together field by field. The reading rules look at the
members only through the names that they ask for, so members that agree there read alike.
-/

namespace DatasetSync.Json

namespace Members

/-- An empty object has no member. -/
@[simp] theorem value?_nil (name : String) : value? [] name = none := rfl

/-- The first member of a name is the one that is found. -/
@[simp] theorem value?_cons (key : String) (value : Json) (rest : Members) (name : String) :
    value? ((key, value) :: rest) name = if key = name then some value else value? rest name :=
  rfl

/-- The first part of an object is asked first, and the second part only if the first one has no
member of the name. -/
@[simp] theorem value?_append (first second : Members) (name : String) :
    value? (first ++ second) name = (value? first name).or (value? second name) := by
  induction first with
  | nil => simp
  | cons member rest ih =>
    obtain ⟨key, value⟩ := member
    by_cases same : key = name
    · simp [same]
    · simpa [same] using ih

/-- Setting a member changes what its name finds, and nothing else, whether the name was there or
not. -/
@[simp] theorem value?_set (members : Members) (name : String) (value : Json) (other : String) :
    value? (members.set name value) other =
      if name = other then some value else value? members other := by
  induction members with
  | nil => rfl
  | cons member rest ih =>
    obtain ⟨key, former⟩ := member
    by_cases set : key = name
    · subst set
      by_cases asked : key = other
      · simp [set, asked]
      · simp [set, asked]
    · by_cases asked : key = other
      · subst asked
        have different : name ≠ key := fun same => set same.symm
        simp [Members.set, set, different]
      · simpa [Members.set, set, asked] using ih

/-- Setting a member to the value that it has changes nothing, not even the order of the members. -/
theorem set_of_value? {members : Members} {name : String} {value : Json}
    (found : value? members name = some value) : members.set name value = members := by
  induction members with
  | nil => cases found
  | cons member rest ih =>
    obtain ⟨key, former⟩ := member
    by_cases same : key = name
    · obtain rfl : former = value := by simpa [same] using found
      simp [Members.set, same]
    · have later : value? rest name = some value := by simpa [same] using found
      simp [Members.set, same, ih later]

end Members

/-- A member that is left out where there is no value is found where there is one. -/
@[simp] theorem value?_optionalMember (name : String) (value : Option Json) (asked : String) :
    Members.value? (optionalMember name value) asked =
      if name = asked then value else none := by
  cases value <;> simp [optionalMember]

/-- A text that is left out where it is empty is found where it is not. -/
@[simp] theorem value?_textMember (name text asked : String) :
    Members.value? (textMember name text) asked =
      if name = asked ∧ text ≠ "" then some (.string text) else none := by
  by_cases blank : text = "" <;> simp [textMember, blank]

/-- A list that is left out where it is empty is found where it is not. -/
@[simp] theorem value?_listMember (name : String) (elements : List Json) (asked : String) :
    Members.value? (listMember name elements) asked =
      if name = asked ∧ elements ≠ [] then some (.array elements) else none := by
  cases elements <;> simp [listMember]

/-! ### Fields that were written -/

section Fields

variable {α : Type} {members : Members} {name : String} {json : Json} {value missing : α}
  {read : Json → Option α}

/-- A text reads back. -/
theorem string?_string (text : String) : string? (.string text) = some text := rfl

/-- The integers that are read are those between the bounds, the bounds included; nothing else is
taken for an integer. -/
theorem integerIn?_eq_some_iff {least greatest value : Int} :
    integerIn? least greatest json = some value ↔
      json = .integer value ∧ least ≤ value ∧ value ≤ greatest := by
  cases json with
  | integer held =>
    simp only [integerIn?, Option.ite_none_right_eq_some, Option.some.injEq, Json.integer.injEq]
    constructor
    · rintro ⟨bounds, rfl⟩
      exact ⟨rfl, bounds⟩
    · rintro ⟨rfl, bounds⟩
      exact ⟨bounds, rfl⟩
  | _ => simp [integerIn?]

/-- The natural numbers that are read are those up to the bound, the bound included. -/
theorem natural?_eq_some_iff {greatest value : Nat} :
    natural? greatest json = some value ↔ json = .integer value ∧ value ≤ greatest := by
  simp only [natural?, Option.map_eq_some_iff, integerIn?_eq_some_iff]
  constructor
  · rintro ⟨held, ⟨rfl, least, most⟩, rfl⟩
    exact ⟨by rw [Int.toNat_of_nonneg least], by omega⟩
  · rintro ⟨rfl, most⟩
    exact ⟨value, ⟨rfl, by omega, by omega⟩, Int.toNat_natCast value⟩

/-- A field that is there and can be read is read. -/
theorem Members.required_of_value? (reads : read json = some value)
    (found : members.value? name = some json) : members.required name read = some value := by
  rw [required, found]
  exact reads

/-- A field that could be missing and is there is read, and its default plays no part. -/
theorem Members.defaulted_of_value? (reads : read json = some value)
    (found : members.value? name = some json) :
    members.defaulted name missing read = some value := by
  rw [defaulted, found]
  exact reads

/-- A field that is left out where there is none reads back, if what is there does. -/
theorem Members.optional_of_map {value : Option α} (write : α → Json)
    (proper : ∀ value, write value ≠ .null)
    (found : members.value? name = value.map write)
    (back : ∀ held, value = some held → read (write held) = some held) :
    members.optional name read = some value := by
  rw [optional, found]
  cases value with
  | none => rfl
  | some held =>
    have reads := back held rfl
    have given := proper held
    rw [Option.map_some]
    split
    · contradiction
    · rename_i same
      exact absurd (Option.some.inj same) given
    · rename_i same
      obtain rfl := Option.some.inj same
      rw [reads, Option.map_some]

/-- A field that could be missing and is not was read from some value. -/
theorem Members.read_of_optional (given : members.optional name read = some (some value)) :
    ∃ json, read json = some value := by
  unfold optional at given
  split at given
  · cases given
  · cases given
  · rename_i json _ _
    obtain ⟨held, reads, same⟩ := Option.map_eq_some_iff.mp given
    exact ⟨json, by rw [reads, same]⟩

/-- A text that is left out where there is none reads back, and so does there being none. -/
theorem Members.optional_text {text : Option String}
    (found : members.value? name = text.map .string) :
    members.optional name string? = some text :=
  optional_of_map .string (fun _ => Json.noConfusion) found fun _ _ => rfl

/-- A text that is left out where it is empty reads back, since a missing text is read as the empty
one. -/
theorem Members.defaulted_text {text : String}
    (found : members.value? name = if text ≠ "" then some (.string text) else none) :
    members.defaulted name "" string? = some text := by
  by_cases blank : text = ""
  · simp [defaulted, found, blank]
  · simp [defaulted, found, blank, string?]

end Fields

/-- Elements that read back one by one read back as a list, in their order. -/
theorem list?_array_map {α : Type} {read : Json → Option α} {write : α → Json}
    {values : List α} (back : ∀ value, read (write value) = some value) :
    list? read (.array (values.map write)) = some values := by
  induction values with
  | nil => simp [list?]
  | cons value rest ih =>
    have tail : (rest.map write).mapM read = some rest := ih
    simp [list?, back, tail]

/-- A list that is left out where it is empty reads back, since a missing list is read as the empty
one. -/
theorem Members.defaulted_list {α : Type} {read : Json → Option α} {write : α → Json}
    {members : Members} {name : String} {values : List α}
    (back : ∀ value, read (write value) = some value)
    (found : members.value? name =
      if values ≠ [] then some (.array (values.map write)) else none) :
    members.defaulted name [] (list? read) = some values := by
  by_cases empty : values = []
  · simp [defaulted, found, empty]
  · exact defaulted_of_value? (list?_array_map back) (by simp [found, empty])

/-- Entries whose values read back one by one read back as a table, in their order and with
repetitions. -/
theorem table?_object_map {α : Type} {read : Json → Option α} {write : α → Json}
    {entries : List (String × α)} (back : ∀ value, read (write value) = some value) :
    table? read (.object (entries.map fun entry => (entry.1, write entry.2))) = some entries := by
  induction entries with
  | nil => simp [table?]
  | cons entry rest ih =>
    have tail : (rest.map fun entry => (entry.1, write entry.2)).mapM
        (fun member => (read member.2).map (member.1, ·)) = some rest := ih
    simp [table?, back, tail]

/-! ### Patches -/

/-- A text as a patch replaces whatever was there. -/
@[simp] theorem mergePatch_string (target : Json) (text : String) :
    mergePatch target (.string text) = .string text := rfl

/-- A list as a patch replaces whatever was there; lists are not merged. -/
@[simp] theorem mergePatch_array (target : Json) (elements : List Json) :
    mergePatch target (.array elements) = .array elements := rfl

/-- An object as a patch changes the members of an object one by one. What was no object counts as
one without members. -/
@[simp] theorem mergePatch_object (target : Json) (changes : Members) :
    mergePatch target (.object changes) =
      .object (mergeMembers (target.members?.getD []) changes) := rfl

/-- A patch without members changes nothing. -/
@[simp] theorem mergeMembers_nil (members : Members) : mergeMembers members [] = members := rfl

/-- A value other than `null` patches the member of its name, or makes one; only `null` takes a
member away. -/
theorem mergeMembers_cons (members : Members) (name : String) {change : Json}
    (given : change ≠ .null) (rest : Members) :
    mergeMembers members ((name, change) :: rest) =
      mergeMembers (members.set name (mergePatch ((members.value? name).getD .null) change))
        rest := by
  cases change with
  | null => exact absurd rfl given
  | _ => rfl

/-- The members after a list was patched: a list without elements is not in the patch, so
    its member stays as it is. -/
def Members.patchList (members : Members) (name : String) (elements : List Json) : Members :=
  if elements = [] then members else members.set name (.array elements)

/-- A list in a patch replaces the list of its name, unless it is empty: then it was left out, and
the old list stays. -/
theorem mergeMembers_listMember (members : Members) (name : String) (elements : List Json)
    (rest : Members) :
    mergeMembers members (listMember name elements ++ rest) =
      mergeMembers (members.patchList name elements) rest := by
  by_cases empty : elements = []
  · simp [listMember, Members.patchList, empty]
  · simp [listMember, Members.patchList, empty, mergeMembers_cons]

/-- What a field reads after a list was patched: the new list, if the field is the one of that list
and something is in it, and what it read before otherwise. -/
theorem Members.defaulted_patchList {α : Type} (members : Members) (listed : String)
    (elements : List Json) (name : String) (missing : α) (read : Json → Option α) :
    (members.patchList listed elements).defaulted name missing read =
      if elements ≠ [] ∧ listed = name then read (.array elements)
      else members.defaulted name missing read := by
  by_cases empty : elements = []
  · simp [patchList, empty]
  · by_cases asked : listed = name
    · simp [patchList, defaulted, empty, asked]
    · simp [patchList, defaulted, empty, asked]

end DatasetSync.Json
