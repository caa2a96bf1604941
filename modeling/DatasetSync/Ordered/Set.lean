/-!
# Finite sets in increasing order

A set is the list of its elements in strictly increasing order, so that a set has one
form and a listing of it is already sorted and free of repetitions.
The order is part of the type; membership is membership in the list.
-/

namespace DatasetSync

universe u

/-- A finite set kept as its elements in strictly increasing order. -/
structure OrderedSet (α : Type u) [Ord α] where
  /-- The elements, smallest first. -/
  toList : List α
  /-- No element is repeated and none is out of place. -/
  increasing : toList.Pairwise (fun first second => compare first second = .lt)
deriving DecidableEq, Repr

namespace OrderedSet

variable {α : Type u} [Ord α]

/-- Put one element in its place in an increasing list; an element that is already
    there is not repeated. -/
def place (element : α) : List α → List α
  | [] => [element]
  | head :: tail =>
    match compare element head with
    | .lt => element :: head :: tail
    | .eq => head :: tail
    | .gt => head :: place element tail

/-- Placing an element introduces no other element. Every element of the longer list is the new one
or was there before. -/
theorem mem_of_place {element other : α} {elements : List α}
    (member : other ∈ place element elements) : other = element ∨ other ∈ elements := by
  induction elements with
  | nil => simpa [place] using member
  | cons head tail ih =>
    simp only [place] at member
    split at member
    · simpa using member
    · exact .inr member
    · rcases List.mem_cons.mp member with same | later
      · exact .inr (same ▸ List.mem_cons_self)
      · exact (ih later).imp_right (List.mem_cons_of_mem _)

/-- Placing keeps a list increasing. An element that is there already is not placed twice, so the
order is strict afterwards, too. -/
theorem place_increasing [Std.TransOrd α] [Std.LawfulEqOrd α] (element : α) {elements : List α}
    (increasing : elements.Pairwise (fun first second => compare first second = .lt)) :
    (place element elements).Pairwise (fun first second => compare first second = .lt) := by
  induction elements with
  | nil => simp [place]
  | cons head tail ih =>
    obtain ⟨before, rest⟩ := List.pairwise_cons.mp increasing
    simp only [place]
    split
    · rename_i less
      refine List.pairwise_cons.mpr ⟨fun later member => ?_, increasing⟩
      rcases List.mem_cons.mp member with rfl | member
      · exact less
      · exact Std.TransCmp.lt_trans less (before later member)
    · exact increasing
    · rename_i greater
      refine List.pairwise_cons.mpr ⟨fun later member => ?_, ih rest⟩
      rcases mem_of_place member with rfl | member
      · exact Std.OrientedCmp.gt_iff_lt.mp greater
      · exact before later member

/-- The set without elements. -/
def empty : OrderedSet α := ⟨[], List.Pairwise.nil⟩

instance : EmptyCollection (OrderedSet α) := ⟨empty⟩

instance : Inhabited (OrderedSet α) := ⟨empty⟩

instance : Membership α (OrderedSet α) := ⟨fun set element => element ∈ set.toList⟩

instance [DecidableEq α] (element : α) (set : OrderedSet α) : Decidable (element ∈ set) :=
  inferInstanceAs (Decidable (element ∈ set.toList))

/-- The set with one more element. -/
def insert [Std.TransOrd α] [Std.LawfulEqOrd α] (set : OrderedSet α) (element : α) :
    OrderedSet α :=
  ⟨place element set.toList, place_increasing element set.increasing⟩

/-- The set without one element. -/
def erase [DecidableEq α] (set : OrderedSet α) (element : α) : OrderedSet α :=
  ⟨set.toList.filter (· ≠ element), set.increasing.filter _⟩

/-- The set with every element of a list. -/
def insertMany [Std.TransOrd α] [Std.LawfulEqOrd α] (set : OrderedSet α) (elements : List α) :
    OrderedSet α :=
  elements.foldl insert set

/-- The set of the elements of a list, whatever their order and repetitions. -/
def ofList [Std.TransOrd α] [Std.LawfulEqOrd α] (elements : List α) : OrderedSet α :=
  insertMany empty elements

/-- An element that was placed is there: it was put in, or an element that compares equal was, and
such an element is the same. -/
theorem mem_place_self [Std.LawfulEqOrd α] (element : α) (elements : List α) :
    element ∈ place element elements := by
  induction elements with
  | nil => simp [place]
  | cons head tail ih =>
    simp only [place]
    split
    · exact List.mem_cons_self
    · rename_i same
      exact Std.LawfulEqOrd.eq_of_compare same ▸ List.mem_cons_self
    · exact List.mem_cons_of_mem _ ih

/-- Placing loses no element. An element that compares equal to the new one takes no harm, as it is
the same element. -/
theorem mem_place_of_mem {element other : α} {elements : List α} (member : other ∈ elements) :
    other ∈ place element elements := by
  induction elements with
  | nil => simp at member
  | cons head tail ih =>
    simp only [place]
    split
    · exact List.mem_cons_of_mem _ member
    · exact member
    · rcases List.mem_cons.mp member with rfl | later
      · exact List.mem_cons_self
      · exact List.mem_cons_of_mem _ (ih later)

/-- Insertion adds exactly its element and loses none, whether or not the element was there
before. -/
@[simp] theorem mem_insert [Std.TransOrd α] [Std.LawfulEqOrd α] (set : OrderedSet α)
    (element other : α) : other ∈ set.insert element ↔ other = element ∨ other ∈ set := by
  constructor
  · exact mem_of_place
  · rintro (rfl | member)
    · exact mem_place_self _ _
    · exact mem_place_of_mem member

/-- Erasure removes exactly its element, and all other elements of the set stay. -/
@[simp] theorem mem_erase [DecidableEq α] (set : OrderedSet α) (element other : α) :
    other ∈ set.erase element ↔ other ≠ element ∧ other ∈ set := by
  change other ∈ set.toList.filter (· ≠ element) ↔ other ≠ element ∧ other ∈ set.toList
  simp [and_comm]

end OrderedSet

end DatasetSync
