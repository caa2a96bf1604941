import Mathlib.Tactic.Tauto
import DatasetSync.Ordered.Map
import DatasetSync.Ordered.Set

/-!
# Entries and look-ups

The keys of an ordered map are not repeated, so an entry of the map is the same as a value
that is found under its key, and the map of its entries is the map. A set that is made of a list
has the elements of the list.
-/

namespace DatasetSync.OrderedMap

universe u v

variable {κ : Type u} [Ord κ] {α : Type v} [DecidableEq κ]

omit [Ord κ] in
/-- A value that is found in a list of entries is the value of an entry. -/
theorem mem_of_valueAt {key : κ} {value : α} {entries : List (κ × α)}
    (found : valueAt key entries = some value) : (key, value) ∈ entries := by
  induction entries with
  | nil => simp [valueAt] at found
  | cons head tail ih =>
    rw [valueAt] at found
    split at found
    · rename_i same
      cases found
      rw [← same]
      exact List.mem_cons_self
    · exact List.mem_cons_of_mem _ (ih found)

/-- In entries of increasing keys the value of an entry is found. The look-up stops at the first
entry of its key, and there is no other one. -/
theorem valueAt_of_mem [Std.LawfulEqOrd κ] {key : κ} {value : α} {entries : List (κ × α)}
    (increasing : entries.Pairwise (fun first second => compare first.1 second.1 = .lt))
    (member : (key, value) ∈ entries) : valueAt key entries = some value := by
  induction entries with
  | nil => simp at member
  | cons head tail ih =>
    obtain ⟨before, rest⟩ := List.pairwise_cons.mp increasing
    rcases List.mem_cons.mp member with rfl | member
    · simp [valueAt]
    · have less : compare head.1 key = .lt := before (key, value) member
      have different : head.1 ≠ key := by
        intro same
        rw [same, Std.compare_self] at less
        cases less
      rw [valueAt, if_neg different]
      exact ih rest member

/-- An entry of a map is a value that is found under its key, and conversely. -/
theorem mem_toList_iff [Std.LawfulEqOrd κ] {map : OrderedMap κ α} {key : κ} {value : α} :
    (key, value) ∈ map.toList ↔ map.get? key = some value :=
  ⟨valueAt_of_mem map.increasing, mem_of_valueAt⟩

/-- A value of a map is found under some key, and what is found under a key is among the values. -/
theorem mem_values_iff [Std.LawfulEqOrd κ] {map : OrderedMap κ α} {value : α} :
    value ∈ map.values ↔ ∃ key, map.get? key = some value := by
  constructor
  · intro member
    obtain ⟨⟨key, found⟩, entry, rfl⟩ := List.mem_map.mp member
    exact ⟨key, mem_toList_iff.mp entry⟩
  · rintro ⟨key, found⟩
    exact List.mem_map.mpr ⟨(key, value), mem_toList_iff.mpr found, rfl⟩

/-- A value that is altered changes at its key only, and it is made of what was found there. -/
@[simp] theorem get?_alter [Std.TransOrd κ] [Std.LawfulEqOrd κ] (map : OrderedMap κ α) (key : κ)
    (change : Option α → α) (other : κ) :
    (map.alter key change).get? other =
      if key = other then some (change (map.get? key)) else map.get? other :=
  get?_insert map key _ other

omit [DecidableEq κ] in
/-- An entry whose key is greater than all others comes last. Placing passes by every entry that
compares less. -/
theorem place_greatest [Std.OrientedOrd κ] {key : κ} {value : α} {entries : List (κ × α)}
    (greatest : ∀ entry ∈ entries, compare entry.1 key = .lt) :
    place key value entries = entries ++ [(key, value)] := by
  induction entries with
  | nil => rfl
  | cons head tail ih =>
    have greater : compare key head.1 = .gt :=
      Std.OrientedCmp.gt_iff_lt.mpr (greatest head List.mem_cons_self)
    rw [place, greater]
    exact congrArg _ (ih fun entry member => greatest entry (List.mem_cons_of_mem _ member))

omit [DecidableEq κ] in
/-- The map of the entries of a map is that map. The entries come in increasing order, so each one
is put at the end of those before it. -/
theorem ofList_toList [Std.TransOrd κ] [Std.LawfulEqOrd κ] (map : OrderedMap κ α) :
    ofList map.toList = map := by
  have grown : ∀ (entries : List (κ × α)) (start : OrderedMap κ α),
      (start.toList ++ entries).Pairwise (fun first second => compare first.1 second.1 = .lt) →
      (entries.foldl (fun map entry => map.insert entry.1 entry.2) start).toList =
        start.toList ++ entries := by
    intro entries
    induction entries with
    | nil => intro start _; simp
    | cons entry rest ih =>
      intro start increasing
      have placed : (start.insert entry.1 entry.2).toList = start.toList ++ [entry] :=
        place_greatest fun other member =>
          (List.pairwise_append.mp increasing).2.2 other member entry List.mem_cons_self
      rw [List.foldl_cons, ih, placed, List.append_assoc, List.singleton_append]
      rwa [placed, List.append_assoc, List.singleton_append]
  have same : (ofList map.toList).toList = map.toList := grown map.toList empty map.increasing
  generalize ofList map.toList = other at same
  cases other
  cases map
  cases same
  rfl

omit [DecidableEq κ] in
/-- No entry of a map is repeated, as its keys are strictly increasing. -/
theorem nodup [Std.TransOrd κ] [Std.LawfulEqOrd κ] (map : OrderedMap κ α) : map.toList.Nodup := by
  refine map.increasing.imp ?_
  rintro entry _ less rfl
  rw [Std.compare_self] at less
  cases less

omit [DecidableEq κ] in
/-- No key of a map is repeated, as keys are strictly increasing and none is less than itself. -/
theorem nodup_keys [Std.TransOrd κ] [Std.LawfulEqOrd κ] (map : OrderedMap κ α) :
    map.keys.Nodup := by
  refine map.keys_increasing.imp ?_
  rintro key _ less rfl
  rw [Std.compare_self] at less
  cases less

/-- Maps with the same values under the same keys are the same. Their entries are the same, and both
lists are increasing, so that there is only one order for them. -/
theorem ext_of_get? [Std.TransOrd κ] [Std.LawfulEqOrd κ] {first second : OrderedMap κ α}
    (same : ∀ key, first.get? key = second.get? key) : first = second := by
  have perm : first.toList.Perm second.toList := by
    refine (List.perm_ext_iff_of_nodup first.nodup second.nodup).mpr ?_
    rintro ⟨key, value⟩
    rw [mem_toList_iff, mem_toList_iff, same]
  have equal : first.toList = second.toList := by
    refine perm.eq_of_pairwise ?_ first.increasing second.increasing
    intro entry other _ _ less greater
    rw [Std.OrientedCmp.gt_of_lt less] at greater
    cases greater
  cases first
  cases second
  cases equal
  rfl

end DatasetSync.OrderedMap

namespace DatasetSync.OrderedSet

universe u

variable {α : Type u} [Ord α] [Std.TransOrd α] [Std.LawfulEqOrd α]

omit [Std.TransOrd α] [Std.LawfulEqOrd α] in
/-- Nothing is an element of the empty set. -/
@[simp] theorem not_mem_empty (element : α) : element ∉ (empty : OrderedSet α) :=
  List.not_mem_nil

/-- The elements of a set and of a list that is put into it, and no others, are in the result. -/
@[simp] theorem mem_insertMany (set : OrderedSet α) (elements : List α) (other : α) :
    other ∈ set.insertMany elements ↔ other ∈ set ∨ other ∈ elements := by
  unfold insertMany
  induction elements generalizing set with
  | nil => simp
  | cons head tail ih =>
    rw [List.foldl_cons, ih, mem_insert, List.mem_cons]
    tauto

/-- The set of a list has the elements of the list, however often and in whatever order they stand
there. -/
@[simp] theorem mem_ofList (elements : List α) (other : α) :
    other ∈ ofList elements ↔ other ∈ elements := by
  simp [ofList]

omit [Std.LawfulEqOrd α] in
/-- No element of a set is repeated, as the elements are strictly increasing. -/
theorem nodup (set : OrderedSet α) : set.toList.Nodup := by
  refine set.increasing.imp ?_
  rintro first second less rfl
  rw [Std.compare_self] at less
  cases less

omit [Std.LawfulEqOrd α] in
/-- Sets with the same elements are the same. Both lists are increasing, so that there is only one
order for the elements. -/
theorem ext_of_mem {first second : OrderedSet α}
    (same : ∀ element, element ∈ first ↔ element ∈ second) : first = second := by
  have perm : first.toList.Perm second.toList :=
    (List.perm_ext_iff_of_nodup first.nodup second.nodup).mpr same
  have equal : first.toList = second.toList := by
    refine perm.eq_of_pairwise ?_ first.increasing second.increasing
    intro element other _ _ less greater
    rw [Std.OrientedCmp.gt_of_lt less] at greater
    cases greater
  cases first
  cases second
  cases equal
  rfl

/-- A set is made of its elements: the set of the list of its elements is that set. -/
theorem ofList_toList (set : OrderedSet α) : ofList set.toList = set :=
  ext_of_mem fun element => mem_ofList set.toList element

end DatasetSync.OrderedSet
