/-!
# Leading and trailing parts of a text

`stripPrefix?` takes a text apart into a given first part and the rest, on the
characters of both, so that its law is the one of appending lists.
-/

namespace DatasetSync.Text

/-- What remains of a list after a given first part, if it starts with that part. -/
def dropLeading? {α : Type} [DecidableEq α] : List α → List α → Option (List α)
  | [], rest => some rest
  | _ :: _, [] => none
  | expected :: leading, actual :: rest =>
    if expected = actual then dropLeading? leading rest else none

/-- A list starts with a first part exactly when it is that part followed by a rest. -/
theorem dropLeading?_eq_some_iff {α : Type} [DecidableEq α] {leading whole rest : List α} :
    dropLeading? leading whole = some rest ↔ whole = leading ++ rest := by
  induction leading generalizing whole with
  | nil => simp [dropLeading?]
  | cons expected leading ih =>
    cases whole with
    | nil => simp [dropLeading?]
    | cons actual whole =>
      by_cases same : expected = actual
      · simp [dropLeading?, same, ih]
      · simp [dropLeading?, same, Ne.symm same]

/-- What remains of a text after a given first part, if it starts with that part. -/
def stripPrefix? (leading whole : String) : Option String :=
  (dropLeading? leading.toList whole.toList).map String.ofList

/-- A text starts with a first part exactly when it is that part followed by a rest. -/
theorem stripPrefix?_eq_some_iff {leading whole rest : String} :
    stripPrefix? leading whole = some rest ↔ whole = leading ++ rest := by
  constructor
  · intro stripped
    obtain ⟨characters, dropped, rfl⟩ := Option.map_eq_some_iff.mp stripped
    apply String.toList_inj.mp
    simp [dropLeading?_eq_some_iff.mp dropped]
  · rintro rfl
    have dropped : dropLeading? leading.toList (leading ++ rest).toList = some rest.toList :=
      dropLeading?_eq_some_iff.mpr String.toList_append
    exact Option.map_eq_some_iff.mpr ⟨rest.toList, dropped, String.ofList_toList⟩

/-- Whether a text starts with a given first part. -/
def startsWith (leading whole : String) : Bool := (stripPrefix? leading whole).isSome

/-- Whether the last character of a text is the given one. -/
def endsWith (last : Char) (whole : String) : Bool := whole.toList.getLast? = some last

end DatasetSync.Text
