/-!
# Finite maps in increasing key order

A map is the list of its entries in strictly increasing key order. A listing of the
entries is therefore sorted by key and names each key once; a look-up finds the one
entry of its key.
-/

namespace DatasetSync

universe u v w

/-- A finite map kept as its entries in strictly increasing key order. -/
structure OrderedMap (κ : Type u) [Ord κ] (α : Type v) where
  /-- The entries, smallest key first. -/
  toList : List (κ × α)
  /-- No key is repeated and none is out of place. -/
  increasing : toList.Pairwise (fun first second => compare first.1 second.1 = .lt)
deriving DecidableEq, Repr

namespace OrderedMap

variable {κ : Type u} [Ord κ] {α : Type v} {β : Type w}

/-- Put one entry in its place in a list of increasing keys, replacing the entry that
    has the same key. -/
def place (key : κ) (value : α) : List (κ × α) → List (κ × α)
  | [] => [(key, value)]
  | (headKey, headValue) :: tail =>
    match compare key headKey with
    | .lt => (key, value) :: (headKey, headValue) :: tail
    | .eq => (key, value) :: tail
    | .gt => (headKey, headValue) :: place key value tail

/-- Placing an entry introduces no other key. So what holds of the keys that were there and of the
new one holds of all keys afterwards, as the proof of increasing keys needs it. -/
theorem key_of_mem_place {key : κ} {value : α} {entries : List (κ × α)} {entry : κ × α}
    (member : entry ∈ place key value entries) : entry.1 = key ∨ entry ∈ entries := by
  induction entries with
  | nil => simp_all [place]
  | cons head tail ih =>
    simp only [place] at member
    split at member
    · rcases List.mem_cons.mp member with rfl | later
      · exact .inl rfl
      · exact .inr later
    · rcases List.mem_cons.mp member with rfl | later
      · exact .inl rfl
      · exact .inr (List.mem_cons_of_mem _ later)
    · rcases List.mem_cons.mp member with rfl | later
      · exact .inr List.mem_cons_self
      · exact (ih later).imp_right (List.mem_cons_of_mem _)

/-- Placing keeps the keys increasing. In front of a greater key the new entry goes before the whole
rest, at an equal key it replaces the entry, and behind a smaller one the rest stays increasing by
induction and brings no smaller key in. -/
theorem place_increasing [Std.TransOrd κ] [Std.LawfulEqOrd κ] (key : κ) (value : α)
    {entries : List (κ × α)}
    (increasing : entries.Pairwise (fun first second => compare first.1 second.1 = .lt)) :
    (place key value entries).Pairwise
      (fun first second => compare first.1 second.1 = .lt) := by
  induction entries with
  | nil => simp [place]
  | cons head tail ih =>
    obtain ⟨before, rest⟩ := List.pairwise_cons.mp increasing
    simp only [place]
    split
    · rename_i less
      refine List.pairwise_cons.mpr ⟨fun later member => ?_, increasing⟩
      rcases List.mem_cons.mp member with rfl | member
      · exact less
      · exact Std.TransCmp.lt_trans less (before later member)
    · rename_i same
      have same := Std.LawfulEqOrd.eq_of_compare same
      exact List.pairwise_cons.mpr ⟨fun later member => same ▸ before later member, rest⟩
    · rename_i greater
      refine List.pairwise_cons.mpr ⟨fun later member => ?_, ih rest⟩
      rcases key_of_mem_place member with same | member
      · exact same ▸ Std.OrientedCmp.gt_iff_lt.mp greater
      · exact before later member

/-- The map without entries. -/
def empty : OrderedMap κ α := ⟨[], List.Pairwise.nil⟩

instance : EmptyCollection (OrderedMap κ α) := ⟨empty⟩

instance : Inhabited (OrderedMap κ α) := ⟨empty⟩

/-- The value of the first entry with a key. -/
def valueAt [DecidableEq κ] (key : κ) : List (κ × α) → Option α
  | [] => none
  | (headKey, value) :: tail => if headKey = key then some value else valueAt key tail

/-- The value of a key. -/
def get? [DecidableEq κ] (map : OrderedMap κ α) (key : κ) : Option α :=
  valueAt key map.toList

/-- Whether a key has a value. -/
def contains [DecidableEq κ] (map : OrderedMap κ α) (key : κ) : Bool :=
  (map.get? key).isSome

/-- The keys, smallest first. -/
def keys (map : OrderedMap κ α) : List κ := map.toList.map Prod.fst

/-- The values, in the order of their keys. -/
def values (map : OrderedMap κ α) : List α := map.toList.map Prod.snd

/-- Whether there is no entry. -/
def isEmpty (map : OrderedMap κ α) : Bool := map.toList.isEmpty

/-- The map with a value for a key, whether or not the key had one. -/
def insert [Std.TransOrd κ] [Std.LawfulEqOrd κ] (map : OrderedMap κ α) (key : κ) (value : α) :
    OrderedMap κ α :=
  ⟨place key value map.toList, place_increasing key value map.increasing⟩

/-- The map without a key. -/
def erase [DecidableEq κ] (map : OrderedMap κ α) (key : κ) : OrderedMap κ α :=
  ⟨map.toList.filter (·.1 ≠ key), map.increasing.filter _⟩

/-- The map in which a key has the value that is made from its value before. -/
def alter [DecidableEq κ] [Std.TransOrd κ] [Std.LawfulEqOrd κ] (map : OrderedMap κ α) (key : κ)
    (change : Option α → α) : OrderedMap κ α :=
  map.insert key (change (map.get? key))

/-- The map of a list of entries; of two entries with one key the later counts. -/
def ofList [Std.TransOrd κ] [Std.LawfulEqOrd κ] (entries : List (κ × α)) : OrderedMap κ α :=
  entries.foldl (fun map entry => map.insert entry.1 entry.2) empty

/-- The keys of a map are in strictly increasing order. A map carries this of its entries. -/
theorem keys_increasing (map : OrderedMap κ α) :
    map.keys.Pairwise (fun first second => compare first second = .lt) :=
  List.pairwise_map.mpr map.increasing

/-- A look-up in placed entries finds the placed value at its key and the former value
    at every other key. -/
theorem valueAt_place [DecidableEq κ] [Std.TransOrd κ] [Std.LawfulEqOrd κ] (key : κ) (value : α)
    (other : κ) (entries : List (κ × α)) :
    valueAt other (place key value entries) =
      if key = other then some value else valueAt other entries := by
  induction entries with
  | nil => simp [place, valueAt]
  | cons head tail ih =>
    simp only [place]
    split
    · simp [valueAt]
    · rename_i same
      have same := Std.LawfulEqOrd.eq_of_compare same
      by_cases found : key = other <;> simp [valueAt, ← same, found]
    · rename_i greater
      have different : key ≠ head.1 := by
        intro same
        simp [same, Std.compare_self] at greater
      by_cases found : head.1 = other
      · subst found
        simp [valueAt, different]
      · simp [valueAt, found, ih]

/-- Insertion changes the value of exactly its key, whether the key was there or not. -/
@[simp] theorem get?_insert [DecidableEq κ] [Std.TransOrd κ] [Std.LawfulEqOrd κ]
    (map : OrderedMap κ α) (key : κ) (value : α) (other : κ) :
    (map.insert key value).get? other = if key = other then some value else map.get? other :=
  valueAt_place key value other map.toList

omit [Ord κ] in
/-- A look-up in entries without a key finds nothing at that key and the former value at
    every other key. -/
theorem valueAt_filter [DecidableEq κ] (key other : κ) (entries : List (κ × α)) :
    valueAt other (entries.filter (·.1 ≠ key)) =
      if key = other then none else valueAt other entries := by
  induction entries with
  | nil => simp [valueAt]
  | cons head tail ih =>
    by_cases erased : head.1 = key
    · by_cases same : key = other <;> simp_all [valueAt]
    · by_cases same : head.1 = other
      · have different : key ≠ other := fun equal => erased (same.trans equal.symm)
        simp [valueAt, same, Ne.symm different, different]
      · simpa [valueAt, erased, same] using ih

/-- Erasure takes the value of exactly its key away, and does nothing if there was none. -/
@[simp] theorem get?_erase [DecidableEq κ] (map : OrderedMap κ α) (key other : κ) :
    (map.erase key).get? other = if key = other then none else map.get? other :=
  valueAt_filter key other map.toList

/-- Nothing is found in the empty map. -/
@[simp] theorem get?_empty [DecidableEq κ] (key : κ) :
    (empty : OrderedMap κ α).get? key = none := rfl

end OrderedMap

end DatasetSync
