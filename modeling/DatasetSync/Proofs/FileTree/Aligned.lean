import DatasetSync.Proofs.FileTree.Steady

/-!
# Trees that follow what their parent holds

After a comparison was written, the recorded tree lists what is declared and what the parent
version held at that time. The next comparison finds something to remove only if the parent
holds less by then, and something new only if it holds more, or if a file is listed twice. If it
holds the same, the comparison leads to the recorded tree itself.
-/

namespace DatasetSync.Document

open FileTree

variable {document : Document} {now : Timestamp} {lineage former : List String}
  {source : QualifiedName} {path : String} {file : FileRecord} {group : SourceFiles}

/-- The spec declares a path of a source. -/
def Declares (document : Document) (source : QualifiedName) (path : String) : Prop :=
  ∃ group ∈ document.spec.fileGroups,
    group.source.qualified document.ns = source ∧ path ∈ group.paths

/-- A path that the parent version holds is also declared, under the name of the inherited
source. -/
def Doubles (document : Document) (lineage : List String) : Prop :=
  document.spec.parent?.isSome ∧
    ∃ path ∈ lineage, document.Declares (document.lineageReference.qualified document.ns) path

/-- The recorded tree lists what is declared and what the parent version held. -/
def Aligned (document : Document) (lineage : List String) : Prop :=
  document.files.outline = (sorted document.ns (document.declaredTree lineage)).outline

/-- The declared groups list a path under a source exactly if some file group of the specification
names this source, in its namespace or in the one that stands in for it, and has this path. -/
theorem lists_declared_iff {fallback : String} {groups : List FileGroup} :
    (declared fallback groups).Lists fallback source path ↔
      ∃ group ∈ groups, group.source.qualified fallback = source ∧ path ∈ group.paths := by
  rw [← mem_declaredPaths_iff]
  constructor
  · rintro ⟨file, ⟨group, member, own, listed⟩, rfl⟩
    obtain ⟨other, paths, found, rfl⟩ := mem_declared member
    obtain rfl : other = source := own
    obtain ⟨path, among, rfl⟩ := List.mem_map.mp listed
    exact ⟨paths, found, among⟩
  · rintro ⟨paths, found, among⟩
    refine ⟨.blank path .processing, ⟨_, List.mem_map.mpr ⟨(source, paths),
      OrderedMap.mem_toList_iff.mpr found, rfl⟩, rfl, List.mem_map_of_mem among⟩, rfl⟩

/-- A comparison is made for what the document declares, and besides, if the version has a parent,
for what the parent version holds: these paths are listed under the reference of the lineage. -/
theorem lists_declaredTree_iff :
    (document.declaredTree lineage).Lists document.ns source path ↔
      document.Declares source path ∨
        (document.spec.parent?.isSome ∧
          document.lineageReference.qualified document.ns = source ∧ path ∈ lineage) := by
  rw [← mem_entries_iff, declaredTree, entries, List.flatMap_append, List.mem_append, ← entries,
    mem_entries_iff, lists_declared_iff, inherited_eq]
  refine or_congr_right ?_
  cases parent : document.spec.parent? with
  | none => simp
  | some version =>
    have own : path ∈ OrderedSet.ofList lineage ↔ path ∈ lineage := OrderedSet.mem_ofList _ _
    simp only [List.flatMap_cons, List.flatMap_nil, List.append_nil, Option.isSome_some, if_true,
      true_and, fresh, List.map_map, List.mem_map, Function.comp_apply, Prod.mk.injEq, ← own]
    constructor
    · rintro ⟨other, member, same, rfl⟩
      exact ⟨same, member⟩
    · rintro ⟨same, member⟩
      exact ⟨path, member, same, rfl⟩

/-- The sources that are listed do not depend on what the parent version holds: the lineage has its
group also where the parent holds nothing. -/
theorem source_declaredTree (member : group ∈ document.declaredTree lineage) :
    ∃ other ∈ document.declaredTree former, other.source = group.source := by
  rcases List.mem_append.mp member with own | inherited
  · exact ⟨group, List.mem_append_left _ own, rfl⟩
  · refine ⟨_, List.mem_append_right _ (List.mem_singleton_self _), ?_⟩
    rw [List.mem_singleton.mp inherited, inherited_eq, inherited_eq]

/-- Only the set of what the parent version holds counts. Neither the order of a listing nor a
repetition in it changes what is declared. -/
theorem declaredTree_congr (same : ∀ path, path ∈ lineage ↔ path ∈ former) :
    document.declaredTree lineage = document.declaredTree former := by
  have sets : OrderedSet.ofList lineage = OrderedSet.ofList former :=
    OrderedSet.ext_of_mem fun path => by simpa using same path
  rw [declaredTree, declaredTree, inherited_eq, inherited_eq, sets]

/-- Something is listed twice exactly if the document doubles a path of its parent version. Declared
groups of one source are joined and paths are put into sets, so nothing else can be listed twice. -/
theorem nodup_entries_iff :
    (entries document.ns (document.declaredTree lineage)).Nodup ↔ ¬ document.Doubles lineage := by
  have apart : ∀ tree : FileTree,
      (tree.Pairwise fun first second =>
        first.source.qualified document.ns ≠ second.source.qualified document.ns) →
      (∀ group ∈ tree, (group.files.map FileRecord.path).Nodup) →
      (entries document.ns tree).Nodup := by
    intro tree distinct paths
    induction tree with
    | nil => exact List.nodup_nil
    | cons group tree ih =>
      obtain ⟨others, distinct⟩ := List.pairwise_cons.mp distinct
      refine nodup_entries_cons.mpr ⟨paths group List.mem_cons_self,
        ih distinct fun other member => paths other (List.mem_cons_of_mem _ member), ?_⟩
      rintro file - ⟨other, ⟨group', member, same, -⟩, -⟩
      exact others group' member same.symm
  have own : (entries document.ns (declared document.ns document.spec.fileGroups)).Nodup := by
    refine apart _ (declared_apart document.spec.fileGroups) fun group member => ?_
    obtain ⟨source, paths, -, rfl⟩ := mem_declared member
    rw [paths_fresh]
    exact paths.nodup
  have moved : (entries document.ns (document.declaredTree lineage)).Perm
      (entries document.ns (inherited document.ns document.spec lineage ::
        declared document.ns document.spec.fileGroups)) :=
    (List.perm_append_singleton _ _).flatMap_right _
  rw [moved.nodup_iff, nodup_entries_cons, inherited_eq]
  unfold Doubles Declares
  cases document.spec.parent? with
  | none => simp [own]
  | some version =>
    have held : ∀ path, path ∈ (OrderedSet.ofList lineage).toList ↔ path ∈ lineage :=
      fun path => OrderedSet.mem_ofList lineage path
    simp only [lists_declared_iff, own, Option.isSome_some, if_true, true_and, paths_fresh,
      (OrderedSet.ofList lineage).nodup]
    simp only [fresh, List.forall_mem_map, FileRecord.blank, held, not_exists, not_and]

/-- A comparison finds nothing new exactly if nothing is doubled, everything that is declared or
inherited is recorded, and every source, also one without files, has a recorded group. -/
theorem unchanged_iff :
    (document.reconcile now lineage).statusChanged = false ↔
      ¬ document.Doubles lineage ∧
        (∀ source path, (document.declaredTree lineage).Lists document.ns source path →
          document.files.Lists document.ns source path) ∧
        ∀ group ∈ document.declaredTree lineage, ∃ own ∈ document.files,
          own.source.qualified document.ns = group.source.qualified document.ns := by
  rw [statusChanged_eq, merge_anyNew_iff, nodup_entries_iff]
  simp only [recorded, isSome_record?_iff, isSome_recorded_iff]

/-- If nothing is new, the files of the target are the records of their sources and paths. -/
theorem recorded_of_unchanged (nothing : (document.reconcile now lineage).statusChanged = false)
    (records : (document.reconcile now lineage).target.files.Records document.ns source file) :
    document.recorded.record? source file.path = some file := by
  rw [statusChanged_eq] at nothing
  obtain ⟨group, member, own, inGroup⟩ := records
  rw [target_files] at member
  exact merge_recorded (keyed_recorded _) nothing
    ⟨group, (Ordered.sortOn_perm _ _).mem_iff.mp member, own, inGroup⟩

/-- A comparison finds nothing to remove exactly if every path that is recorded is still declared or
inherited under the source under which it is recorded. -/
theorem deleted_eq_nil_iff :
    (document.reconcile now lineage).deleted = [] ↔
      ∀ source path, document.files.Lists document.ns source path →
        (document.declaredTree lineage).Lists document.ns source path := by
  constructor
  · intro nothing source path listed
    obtain ⟨record, found⟩ := record?_of_lists listed
    refine by_contra fun unlisted => ?_
    obtain ⟨group, member, -⟩ := (@mem_deleted_iff document now lineage record).mpr
      ⟨source, path, found, unlisted⟩
    rw [nothing] at member
    cases member
  · intro listed
    refine List.eq_nil_iff_forall_not_mem.mpr fun group member => ?_
    have filled : group.files ≠ [] := by
      unfold reconcile at member
      have left := (Ordered.sortOn_perm _ _).mem_iff.mp member
      obtain ⟨⟨reference, files⟩, kept, rfl⟩ := List.mem_map.mp left
      have some := (List.mem_filter.mp kept).2
      simpa [OrderedMap.isEmpty, OrderedMap.values] using some
    obtain ⟨file, inGroup⟩ := List.exists_mem_of_ne_nil _ filled
    obtain ⟨source, path, found, unlisted⟩ := mem_deleted_iff.mp ⟨group, member, inGroup⟩
    exact unlisted (listed source path (isSome_record?_iff.mp (by rw [← recorded, found]; rfl)))

/-- A target has the sources and paths of the declaration, in order. What is recorded enters into
the files of a target, never into its outline. -/
theorem outline_target : (document.reconcile now lineage).target.files.outline =
    (sorted document.ns (document.declaredTree lineage)).outline := by
  rw [target_files]
  exact outline_sorted (outline_merge (keyed_recorded document.files) _)

namespace Aligned

/-- An aligned tree lists what is declared and what the parent version held when the tree was
made. -/
theorem lists_iff (aligned : document.Aligned former) :
    document.files.Lists document.ns source path ↔
      (document.declaredTree former).Lists document.ns source path := by
  rw [lists_of_outline aligned, ← mem_entries_iff, ← mem_entries_iff]
  exact ((Ordered.sortOn_perm _ _).flatMap_right _).mem_iff

/-- An aligned tree has all sources that are declared, whatever the parent version holds now: the
sources do not depend on that. -/
theorem source_mem (aligned : document.Aligned former)
    (member : group ∈ document.declaredTree lineage) :
    ∃ own ∈ document.files,
      own.source.qualified document.ns = group.source.qualified document.ns := by
  obtain ⟨other, listed, same⟩ := @source_declaredTree document lineage former group member
  have entry : (other.source, other.files.map FileRecord.path) ∈ document.files.outline := by
    rw [aligned]
    exact List.mem_map_of_mem ((Ordered.sortOn_perm _ _).mem_iff.mpr listed)
  obtain ⟨own, among, equal⟩ := List.mem_map.mp entry
  exact ⟨own, among, by rw [(Prod.mk.inj equal).1, same]⟩

/-- Nothing is removed as long as the parent version holds what it held. Files that it holds in
addition do no harm, since a removal is of what was recorded. -/
theorem deleted_eq_nil (aligned : document.Aligned former)
    (kept : ∀ path ∈ former, path ∈ lineage) :
    (document.reconcile now lineage).deleted = [] := by
  refine deleted_eq_nil_iff.mpr fun source path listed => ?_
  rcases lists_declaredTree_iff.mp (aligned.lists_iff.mp listed) with own | ⟨parent, same, held⟩
  · exact lists_declaredTree_iff.mpr (.inl own)
  · exact lists_declaredTree_iff.mpr (.inr ⟨parent, same, kept path held⟩)

/-- Nothing is new as long as the parent version holds no more than it held, and nothing is
listed twice. -/
theorem unchanged (aligned : document.Aligned former) (known : ∀ path ∈ lineage, path ∈ former)
    (single : ¬ document.Doubles lineage) :
    (document.reconcile now lineage).statusChanged = false := by
  refine unchanged_iff.mpr ⟨single, fun source path listed => ?_, fun group member =>
    aligned.source_mem member⟩
  refine aligned.lists_iff.mpr ?_
  rcases lists_declaredTree_iff.mp listed with own | ⟨parent, same, held⟩
  · exact lists_declaredTree_iff.mpr (.inl own)
  · exact lists_declaredTree_iff.mpr (.inr ⟨parent, same, known path held⟩)

/-- If nothing is new, the parent version holds no more than it held: a path that was added there
would not be recorded yet. -/
theorem known_of_unchanged (aligned : document.Aligned former)
    (parent : document.spec.parent?.isSome)
    (nothing : (document.reconcile now lineage).statusChanged = false) :
    ∀ path ∈ lineage, path ∈ former := by
  obtain ⟨single, listed, -⟩ := unchanged_iff.mp nothing
  intro path held
  have entered := aligned.lists_iff.mp (listed _ path
    (lists_declaredTree_iff.mpr (.inr ⟨parent, rfl, held⟩)))
  rcases lists_declaredTree_iff.mp entered with own | ⟨-, -, held'⟩
  · exact absurd ⟨parent, path, held, own⟩ single
  · exact held'

/-- A comparison that finds nothing new leads to the recorded tree, if that is aligned. Then every
file takes its record, and the outline is the one that the tree has already. -/
theorem target_eq (aligned : document.Aligned lineage)
    (nothing : (document.reconcile now lineage).statusChanged = false) :
    (document.reconcile now lineage).target.files = document.files := by
  have single := (unchanged_iff.mp nothing).1
  have same : (document.reconcile now lineage).target.files.outline = document.files.outline :=
    outline_target.trans aligned.symm
  have distinct : (entries document.ns document.files).Nodup := by
    rw [entries_eq_outline, aligned, ← entries_eq_outline]
    exact ((Ordered.sortOn_perm _ _).flatMap_right _).nodup_iff.mpr (nodup_entries_iff.mpr single)
  exact eq_of_outline same distinct fun source file records =>
    (records_of_record? (recorded_of_unchanged nothing records)).1

end Aligned

/-- A target lists what the document declares and what it inherits, and nothing else; whether it was
recorded makes no difference. -/
theorem lists_target_iff :
    (document.reconcile now lineage).target.files.Lists document.ns source path ↔
      (document.declaredTree lineage).Lists document.ns source path := by
  let later := { document with status := some (document.reconcile now lineage).target }
  have aligned : later.Aligned lineage := outline_target
  exact aligned.lists_iff

end DatasetSync.Document
