/-!
# Stable sorting by a rank

Each element goes in front of the first one that ranks no lower. Elements of one rank
therefore keep their order, and a list that is already in order is unchanged.
-/

namespace DatasetSync.Ordered

universe u v

variable {α : Type u} {κ : Type v} [Ord κ]

/-- Put an element in front of the first one that ranks no lower. -/
def putBefore (rank : α → κ) (element : α) : List α → List α
  | [] => [element]
  | head :: tail =>
    if (compare (rank element) (rank head)).isLE then element :: head :: tail
    else head :: putBefore rank element tail

/-- The elements in increasing order of rank; equal ranks keep their order. -/
def sortOn (rank : α → κ) : List α → List α
  | [] => []
  | head :: tail => putBefore rank head (sortOn rank tail)

/-- Putting an element in its place loses nothing and adds nothing but the element itself. -/
theorem putBefore_perm (rank : α → κ) (element : α) (elements : List α) :
    (putBefore rank element elements).Perm (element :: elements) := by
  induction elements with
  | nil => exact .refl _
  | cons head tail ih =>
    simp only [putBefore]
    split
    · exact .refl _
    · exact (ih.cons head).trans (.swap ..)

/-- Sorting loses nothing and adds nothing. Elements of one rank are all kept, also where they are
equal. -/
theorem sortOn_perm (rank : α → κ) (elements : List α) :
    (sortOn rank elements).Perm elements := by
  induction elements with
  | nil => exact .refl _
  | cons head tail ih => exact (putBefore_perm rank head _).trans (ih.cons head)

/-- Put in its place an element keeps a list ordered by rank. It stands in front of the first
element that ranks no lower; that everything behind that one ranks no lower, too, follows from the
order of the rest. -/
theorem putBefore_ordered [Std.TransOrd κ] (rank : α → κ) (element : α) {elements : List α}
    (ordered : elements.Pairwise
      (fun first second => (compare (rank first) (rank second)).isLE)) :
    (putBefore rank element elements).Pairwise
      (fun first second => (compare (rank first) (rank second)).isLE) := by
  induction elements with
  | nil => simp [putBefore]
  | cons head tail ih =>
    obtain ⟨before, rest⟩ := List.pairwise_cons.mp ordered
    simp only [putBefore]
    split
    · rename_i lower
      refine List.pairwise_cons.mpr ⟨fun later member => ?_, ordered⟩
      rcases List.mem_cons.mp member with rfl | member
      · exact lower
      · exact Std.TransCmp.isLE_trans lower (before later member)
    · rename_i higher
      refine List.pairwise_cons.mpr ⟨fun later member => ?_, ih rest⟩
      rcases List.mem_cons.mp ((putBefore_perm rank element tail).mem_iff.mp member) with
        rfl | member
      · have greater : compare (rank later) (rank head) = .gt := by
          cases order : compare (rank later) (rank head) <;> simp_all
        have less := Std.OrientedCmp.gt_iff_lt.mp greater
        simp [less]
      · exact before later member

/-- The sorted list is in increasing order of rank. Ranks may be equal, so the order need not be
strict. -/
theorem sortOn_ordered [Std.TransOrd κ] (rank : α → κ) (elements : List α) :
    (sortOn rank elements).Pairwise
      (fun first second => (compare (rank first) (rank second)).isLE) := by
  induction elements with
  | nil => exact .nil
  | cons head tail ih => exact putBefore_ordered rank head ih

end DatasetSync.Ordered
