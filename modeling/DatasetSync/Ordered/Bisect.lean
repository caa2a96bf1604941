/-!
# Binary search

A search narrows a range of positions to one by halving it. Each element is classified as
lying before the place that is looked for, at it, or behind it; the elements have to stand
in that order. The number of halvings depends on the length alone.
-/

namespace DatasetSync.Ordered

variable {α : Type}

/-- The position that remains after halving the `size` positions from `base` on. -/
def narrow (classify : α → Ordering) (elements : List α) : Nat → Nat → Nat → Nat
  | 0, base, _ => base
  | fuel + 1, base, size =>
    if size ≤ 1 then base
    else
      let half := size / 2
      let middle := base + half
      let behind := elements[middle]?.all fun element => classify element = .gt
      narrow classify elements fuel (if behind then base else middle) (size - half)

/-- The position of an element that is at the place, if there is one. -/
def bisect? (classify : α → Ordering) (elements : List α) : Option Nat :=
  let position := narrow classify elements elements.length 0 elements.length
  match elements[position]? with
  | some element => if classify element = .eq then some position else none
  | none => none

/-- How many elements lie before the place where a property ends to hold. -/
def partitionPoint (holds : α → Bool) (elements : List α) : Nat :=
  let position :=
    narrow (fun element => if holds element then .lt else .gt) elements elements.length 0
      elements.length
  match elements[position]? with
  | some element => if holds element then position + 1 else position
  | none => 0

end DatasetSync.Ordered
