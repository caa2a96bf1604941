import DatasetSync.Ordered.Bisect
import DatasetSync.Ordered.Sort

/-!
# What a search finds and what a sort keeps

A search by halving comes to the last position that does not lie behind the place that is
looked for. So the end of a property that holds on a first part is found, and a place that one
element has is found at that element. Nothing is said about lists out of order.

Sorting keeps what holds between elements of one rank, since it never puts one of them in
front of another.
-/

namespace DatasetSync.Ordered

section Searching

variable {α : Type} {classify : α → Ordering} {elements : List α}

/-- The elements before a position do not lie behind the place, and all others do. -/
structure Cuts (classify : α → Ordering) (elements : List α) (count : Nat) : Prop where
  inside : count ≤ elements.length
  before : ∀ position element, position < count → elements[position]? = some element →
    classify element ≠ .gt
  behind : ∀ position element, count ≤ position → elements[position]? = some element →
    classify element = .gt

/-- Halving keeps the last position before the cut in its range, and ends there. The induction is on
the fuel, of which there is enough as the range gets shorter in every round. -/
theorem narrow_eq {count : Nat} (cuts : Cuts classify elements count) (fuel base size : Nat)
    (enough : size ≤ fuel) (below : base = 0 ∨ base < count) (above : count ≤ base + size) :
    narrow classify elements fuel base size = count - 1 := by
  induction fuel generalizing base size with
  | zero =>
    rw [narrow]
    omega
  | succ fuel ih =>
    rw [narrow]
    by_cases single : size ≤ 1
    · rw [if_pos single]
      omega
    · rw [if_neg single]
      dsimp only
      by_cases low : base + size / 2 < count
      · have inside := cuts.inside
        have present : elements[base + size / 2]? = some elements[base + size / 2] :=
          List.getElem?_eq_getElem (by omega)
        have here := cuts.before _ _ low present
        simp only [present, Option.all_some, here, decide_false, Bool.false_eq_true, if_false]
        exact ih _ _ (by omega) (.inr low) (by omega)
      · have gone : (elements[base + size / 2]?.all fun element => classify element = .gt) = true := by
          cases found : elements[base + size / 2]? with
          | none => rfl
          | some element => simpa using cuts.behind _ _ (by omega) found
        rw [if_pos gone]
        exact ih _ _ (by omega) below (by omega)

/-- If a property holds before each element that has it, the elements that have it are a first
part. -/
theorem split_of_pairwise (holds : α → Bool)
    (closed : elements.Pairwise fun earlier later => holds later = true → holds earlier = true) :
    ∃ first second, elements = first ++ second ∧ (∀ element ∈ first, holds element = true) ∧
      ∀ element ∈ second, holds element = false := by
  induction elements with
  | nil => exact ⟨[], [], rfl, by simp, by simp⟩
  | cons head tail ih =>
    obtain ⟨before, rest⟩ := List.pairwise_cons.mp closed
    by_cases own : holds head = true
    · obtain ⟨first, second, rfl, inside, outside⟩ := ih rest
      refine ⟨head :: first, second, rfl, ?_, outside⟩
      intro element member
      rcases List.mem_cons.mp member with rfl | later
      · exact own
      · exact inside element later
    · refine ⟨[], head :: tail, rfl, by simp, ?_⟩
      intro element member
      rcases List.mem_cons.mp member with rfl | later
      · simpa using own
      · cases high : holds element with
        | false => rfl
        | true => exact absurd (before element later high) own

/-- The search finds the end of a property that holds on a first part and nowhere behind it. If the
first part is empty, this is the start of the list. -/
theorem partitionPoint_append {holds : α → Bool} {first second : List α}
    (inside : ∀ element ∈ first, holds element = true)
    (outside : ∀ element ∈ second, holds element = false) :
    partitionPoint holds (first ++ second) = first.length := by
  have cuts : Cuts (fun element => if holds element then .lt else .gt) (first ++ second)
      first.length := by
    refine ⟨by simp, ?before, ?behind⟩
    case before =>
      intro position element low found
      rw [List.getElem?_append_left low] at found
      simp [inside element (List.mem_of_getElem? found)]
    case behind =>
      intro position element high found
      rw [List.getElem?_append_right high] at found
      simp [outside element (List.mem_of_getElem? found)]
  have reached := narrow_eq cuts (first ++ second).length 0 (first ++ second).length
    (Nat.le_refl _) (.inl rfl) (by rw [List.length_append]; omega)
  unfold partitionPoint
  rw [reached]
  dsimp only
  cases first with
  | nil =>
    cases second with
    | nil => rfl
    | cons head tail => simp [outside head List.mem_cons_self]
  | cons head tail =>
    obtain ⟨last, found⟩ : ∃ last, (head :: tail)[(head :: tail).length - 1]? = some last :=
      ⟨_, List.getElem?_eq_getElem (by simp)⟩
    rw [List.getElem?_append_left (by simp), found]
    simp [inside last (List.mem_of_getElem? found)]

/-- What a search finds is at the place: the element there was asked and has answered that it is the
one. -/
theorem eq_of_bisect? {position : Nat} (found : bisect? classify elements = some position) :
    ∃ element, elements[position]? = some element ∧ classify element = .eq := by
  unfold bisect? at found
  dsimp only at found
  split at found
  · rename_i element present
    split at found
    · rename_i same
      cases found
      exact ⟨element, present, same⟩
    · cases found
  · cases found

/-- The element that is at the place is found, if the ones before it lie before the place and
the ones after it lie behind. -/
theorem bisect?_eq_some {position : Nat} {element : α}
    (present : elements[position]? = some element) (here : classify element = .eq)
    (before : ∀ lower other, lower < position → elements[lower]? = some other →
      classify other = .lt)
    (behind : ∀ upper other, position < upper → elements[upper]? = some other →
      classify other = .gt) : bisect? classify elements = some position := by
  have cuts : Cuts classify elements (position + 1) := by
    refine ⟨(List.getElem?_eq_some_iff.mp present).1, ?_, ?_⟩
    · intro lower other low found
      by_cases own : lower = position
      · subst own
        rw [present] at found
        cases found
        simp [here]
      · simp [before lower other (by omega) found]
    · intro upper other high found
      exact behind upper other (by omega) found
  have inside := cuts.inside
  have reached := narrow_eq cuts elements.length 0 elements.length (Nat.le_refl _) (.inl rfl)
    (by omega)
  simp [bisect?, reached, present, here]

end Searching

section Sorting

universe u v w

variable {α : Type u} {κ : Type v} [Ord κ] {rank : α → κ} {related : α → α → Prop}

/-- Putting an element in its place keeps what holds between elements of one rank, if the new
element is so related to all that were there: it is put in front of them. -/
theorem putBefore_stable [Std.TransOrd κ] {element : α} {elements : List α}
    (own : ∀ other ∈ elements, rank element = rank other → related element other)
    (stable : elements.Pairwise fun first second => rank first = rank second →
      related first second) :
    (putBefore rank element elements).Pairwise fun first second =>
      rank first = rank second → related first second := by
  induction elements with
  | nil => simp [putBefore]
  | cons head tail ih =>
    obtain ⟨before, rest⟩ := List.pairwise_cons.mp stable
    rw [putBefore]
    by_cases lower : (compare (rank element) (rank head)).isLE = true
    · rw [if_pos lower]
      exact List.pairwise_cons.mpr ⟨own, stable⟩
    · rw [if_neg lower]
      refine List.pairwise_cons.mpr ⟨?_, ih (fun other member => own other
        (List.mem_cons_of_mem _ member)) rest⟩
      intro other member same
      rcases List.mem_cons.mp ((putBefore_perm rank element tail).mem_iff.mp member) with
        rfl | member
      · rw [← same] at lower
        simp at lower
      · exact before other member same

/-- Sorting keeps what holds between elements of one rank, in the order in which they stand in the
list. In particular elements of one rank keep their order. -/
theorem sortOn_stable [Std.TransOrd κ] {elements : List α}
    (stable : elements.Pairwise fun first second => rank first = rank second →
      related first second) :
    (sortOn rank elements).Pairwise fun first second =>
      rank first = rank second → related first second := by
  induction elements with
  | nil => exact .nil
  | cons head tail ih =>
    obtain ⟨before, rest⟩ := List.pairwise_cons.mp stable
    refine putBefore_stable ?_ (ih rest)
    intro other member
    exact before other ((sortOn_perm rank tail).mem_iff.mp member)

/-- Putting images in place by their ranks is putting in place by the ranks of the images. -/
theorem putBefore_map {β : Type w} (rank : β → κ) (image : α → β) (element : α)
    (elements : List α) :
    putBefore rank (image element) (elements.map image) =
      (putBefore (fun element => rank (image element)) element elements).map image := by
  induction elements with
  | nil => rfl
  | cons head tail ih =>
    simp only [List.map_cons, putBefore, ih]
    split <;> rfl

/-- Sorting images by their ranks is sorting by the ranks of the images and taking images
afterwards. -/
theorem sortOn_map {β : Type w} (rank : β → κ) (image : α → β) (elements : List α) :
    sortOn rank (elements.map image) =
      (sortOn (fun element => rank (image element)) elements).map image := by
  induction elements with
  | nil => rfl
  | cons head tail ih => rw [List.map_cons, sortOn, sortOn, ih, putBefore_map]

end Sorting

end DatasetSync.Ordered
