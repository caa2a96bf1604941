import DatasetSync.Json.Reading

/-!
# Names and references

Objects of a cluster are named within a namespace. A reference to an object may leave its
namespace out; the place where the reference stands then supplies one.
-/

namespace DatasetSync

/-- A namespace and a name in it. Names are ordered by namespace first. -/
structure QualifiedName where
  /-- The namespace. -/
  ns : String
  name : String
deriving DecidableEq, Repr, Inhabited

namespace QualifiedName

instance : Ord QualifiedName :=
  ⟨compareLex (compareOn QualifiedName.ns) (compareOn QualifiedName.name)⟩

instance : Std.TransOrd QualifiedName :=
  inferInstanceAs
    (Std.TransCmp (compareLex (compareOn QualifiedName.ns) (compareOn QualifiedName.name)))

instance : Std.LawfulEqOrd QualifiedName where
  eq_of_compare {first second} same := by
    have both : compare first.ns second.ns = .eq ∧ compare first.name second.name = .eq := by
      simpa [compare, compareLex, compareOn, Ordering.then_eq_eq] using same
    have sameNs : first.ns = second.ns := Std.LawfulEqOrd.eq_of_compare both.1
    have sameName : first.name = second.name := Std.LawfulEqOrd.eq_of_compare both.2
    cases first
    cases second
    simp_all

/-- The name behind its namespace and a slash. -/
def toString (qualified : QualifiedName) : String := qualified.ns ++ "/" ++ qualified.name

end QualifiedName

/-- A reference to another object, optionally in a namespace of its own. -/
structure Reference where
  apiGroup : Option String
  kind : String
  name : String
  /-- The namespace of the object, where it is given. -/
  ns : Option String
deriving DecidableEq, Repr, Inhabited

namespace Reference

/-- The namespace of the object, which is a given one where the reference names none. -/
def nsOr (reference : Reference) (fallback : String) : String := reference.ns.getD fallback

/-- The full name of the object. -/
def qualified (reference : Reference) (fallback : String) : QualifiedName :=
  ⟨reference.nsOr fallback, reference.name⟩

/-- The kind of a source of files. -/
def datasourceKind : String := "Datasource"

/-- The kind of a versioned dataset. -/
def versionedDatasetKind : String := "VersionedDataset"

def toJson (reference : Reference) : Json :=
  .object <|
    Json.optionalMember "apiGroup" (reference.apiGroup.map .string)
    ++ [("kind", .string reference.kind), ("name", .string reference.name)]
    ++ Json.optionalMember "namespace" (reference.ns.map .string)

def ofJson? (json : Json) : Option Reference := do
  let members ← json.record? ["apiGroup", "kind", "name", "namespace"]
  let apiGroup ← members.optional "apiGroup" Json.string?
  let kind ← members.defaulted "kind" "" Json.string?
  let name ← members.required "name" Json.string?
  let ns ← members.optional "namespace" Json.string?
  return { apiGroup, kind, name, ns }

end Reference

end DatasetSync
