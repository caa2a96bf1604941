import DatasetSync.Ordered.Map
import DatasetSync.Ordered.Set

/-!
# Registered runs

For each key at most one run is registered. A new run takes the place of the former one and
cancels it. A run that ends takes its own registration away and no other's.
-/

namespace DatasetSync

/-- The number of a run. -/
abbrev RunId := Nat

/-- The runs that are registered, and the ones that were cancelled. -/
structure Registry where
  /-- How many runs were ever registered; their numbers are those below. -/
  issued : RunId
  running : OrderedMap String RunId
  cancelled : OrderedSet RunId
deriving DecidableEq, Repr

namespace Registry

/-- A registry without runs. -/
def empty : Registry := ⟨0, .empty, .empty⟩

instance : Inhabited Registry := ⟨empty⟩

/-- Whether a run was cancelled. -/
def isCancelled (registry : Registry) (id : RunId) : Bool := id ∈ registry.cancelled

/-- Cancel the run of a key, if there is one. -/
def cancelRunOf (registry : Registry) (key : String) : OrderedSet RunId :=
  match registry.running.get? key with
  | some former => registry.cancelled.insert former
  | none => registry.cancelled

/-- Register a new run for a key and cancel the one whose place it takes. -/
def register (registry : Registry) (key : String) : RunId × Registry :=
  (registry.issued,
    { issued := registry.issued + 1
      running := registry.running.insert key registry.issued
      cancelled := registry.cancelRunOf key })

/-- Take away the registration of a run that has ended, unless the key belongs to another
    run by now. -/
def finish (registry : Registry) (key : String) (id : RunId) : Registry :=
  if registry.running.get? key = some id then
    { registry with running := registry.running.erase key }
  else registry

/-- Cancel the run of a key and take its registration away. -/
def stop (registry : Registry) (key : String) : Option RunId × Registry :=
  match registry.running.get? key with
  | none => (none, registry)
  | some id =>
    (some id,
      { registry with
        running := registry.running.erase key, cancelled := registry.cancelRunOf key })

end Registry

end DatasetSync
