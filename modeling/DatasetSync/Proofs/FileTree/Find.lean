import Mathlib.Data.String.Basic
import DatasetSync.FileTree.Transition
import DatasetSync.Proofs.Ordered.Search

/-!
# Where a look-up ends

A file is looked up by the name of its source and by its path, and both times by halving. In a
tree that stands in order the look-up of a source ends at the first group of that source, and
the look-up of a path at the file of that path. Of two groups of one source only the first one
is ever found, whatever their files are.
-/

namespace DatasetSync.FileTree

/-- The groups stand in order of the names of their sources, and the files of each group in
order of their paths, none of which is repeated. -/
structure InOrder (tree : FileTree) : Prop where
  byName : tree.Pairwise fun first second => first.source.name ≤ second.source.name
  byPath : ∀ group ∈ tree,
    group.files.Pairwise fun first second => compare first.path second.path = .lt

/-- The look-up of a source and a path ends at a group, and in it at a file. -/
def Finds (tree : FileTree) (source : QualifiedName) (path : String) (i j : Nat) : Prop :=
  tree.findSource? source = some i ∧
    ∃ group, tree[i]? = some group ∧ findPath? group.files path = some j

variable {tree : FileTree} {source : QualifiedName} {path : String} {i j : Nat}
  {group : SourceFiles} {file : FileRecord}

/-- The look-up of a source finds what would be found by going through all groups, in a tree that is
sorted by name. Such a tree falls into the groups with a lower name, those with the name, and the
others; the bisection ends among those with the name, and from there the look-up goes through them
in order. -/
theorem findSource?_eq_findIdx?
    (byName : tree.Pairwise fun first second => first.source.name ≤ second.source.name) :
    tree.findSource? source = tree.findIdx? (·.source.qualified "" = source) := by
  obtain ⟨first, rest, rfl, lower, atLeast⟩ := Ordered.split_of_pairwise
    (fun group : SourceFiles => group.source.name < source.name)
    (byName.imp fun {earlier later} ordered less => by
      have below : later.source.name < source.name := by simpa using less
      simpa using lt_of_le_of_lt ordered below)
  simp only [decide_eq_true_eq, decide_eq_false_iff_not, not_lt] at lower atLeast
  have ordered := (List.pairwise_append.mp byName).2.1
  obtain ⟨named, higher, rfl, same, other⟩ := Ordered.split_of_pairwise
    (fun group : SourceFiles => group.source.name = source.name)
    (List.Pairwise.imp_of_mem (fun {earlier later} member _ ordered equal => by
      have own : later.source.name = source.name := by simpa using equal
      simpa using le_antisymm (own ▸ ordered) (atLeast earlier member)) ordered)
  simp only [decide_eq_true_eq, decide_eq_false_iff_not] at same other
  have taken : (named ++ higher).takeWhile (·.source.name = source.name) = named := by
    rw [List.takeWhile_append_of_pos (by simpa using same)]
    cases higher with
    | nil => simp
    | cons head tail => simp [other head List.mem_cons_self]
  have absent : ∀ groups : FileTree, (∀ group ∈ groups, group.source.name ≠ source.name) →
      groups.findIdx? (·.source.qualified "" = source) = none := by
    intro groups different
    rw [List.findIdx?_eq_none_iff]
    intro group member
    have unequal := different group member
    simp only [decide_eq_false_iff_not]
    rintro rfl
    exact unequal rfl
  have alike : named.findIdx? (·.source.ns.getD "" = source.ns) =
      named.findIdx? (·.source.qualified "" = source) := by
    clear taken atLeast ordered byName
    induction named with
    | nil => rfl
    | cons head tail ih =>
      have own := same head List.mem_cons_self
      have equal : head.source.qualified "" = source ↔ head.source.ns.getD "" = source.ns := by
        cases source
        simpa [Reference.qualified, Reference.nsOr] using fun _ => own
      rw [List.findIdx?_cons, List.findIdx?_cons,
        ih fun group member => same group (List.mem_cons_of_mem _ member)]
      simp only [equal]
  unfold findSource?
  rw [Ordered.partitionPoint_append
    (fun group member => decide_eq_true (lower group member))
    (fun group member => decide_eq_false (not_lt.mpr (atLeast group member)))]
  dsimp only
  rw [List.drop_left, taken, List.findIdx?_append, List.findIdx?_append,
    absent first (fun group member => ne_of_lt (lower group member)), absent higher other, alike]
  cases named.findIdx? (·.source.qualified "" = source) with
  | none => rfl
  | some position => simp [Nat.add_comm]

/-- In a tree in order a look-up ends at a file of its path in the first group of its source,
and nowhere else. -/
theorem finds_iff (inOrder : tree.InOrder) (present : tree[i]? = some group)
    (listed : group.files[j]? = some file) :
    tree.Finds source path i j ↔
      group.source.qualified "" = source ∧ file.path = path ∧
        ∀ earlier other, earlier < i → tree[earlier]? = some other →
          other.source.qualified "" ≠ source := by
  have first : tree.findSource? source = some i ↔ group.source.qualified "" = source ∧
      ∀ earlier other, earlier < i → tree[earlier]? = some other →
        other.source.qualified "" ≠ source := by
    obtain ⟨inside, rfl⟩ := List.getElem?_eq_some_iff.mp present
    rw [findSource?_eq_findIdx? inOrder.byName, List.findIdx?_eq_some_iff_getElem]
    constructor
    · rintro ⟨_, own, before⟩
      refine ⟨by simpa using own, ?_⟩
      intro earlier other low found
      obtain ⟨within, rfl⟩ := List.getElem?_eq_some_iff.mp found
      simpa using before earlier low
    · rintro ⟨own, before⟩
      refine ⟨inside, by simpa using own, ?_⟩
      intro earlier low
      simpa using before earlier _ low (List.getElem?_eq_getElem (by omega))
  have inGroup : findPath? group.files path = some j ↔ file.path = path := by
    constructor
    · intro found
      obtain ⟨other, at', same⟩ := Ordered.eq_of_bisect? found
      rw [listed] at at'
      cases at'
      exact Std.LawfulEqOrd.eq_of_compare same
    · rintro rfl
      have increasing := inOrder.byPath group (List.mem_of_getElem? present)
      obtain ⟨inside, rfl⟩ := List.getElem?_eq_some_iff.mp listed
      refine Ordered.bisect?_eq_some listed (by exact Std.ReflCmp.compare_self) ?_ ?_
      · intro lower other low found
        obtain ⟨within, rfl⟩ := List.getElem?_eq_some_iff.mp found
        exact List.pairwise_iff_getElem.mp increasing lower j within inside low
      · intro upper other high found
        obtain ⟨within, rfl⟩ := List.getElem?_eq_some_iff.mp found
        exact Std.OrientedCmp.gt_iff_lt.mpr
          (List.pairwise_iff_getElem.mp increasing j upper inside within high)
  unfold Finds
  rw [first, present]
  simp only [Option.some.injEq, exists_eq_left', inGroup]
  tauto

end DatasetSync.FileTree
