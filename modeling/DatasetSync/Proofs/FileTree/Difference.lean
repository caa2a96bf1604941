import DatasetSync.Proofs.FileTree.Settled

/-!
# The difference between declared and recorded files

A comparison of what a document declares with what its status records comes to exactly their
difference. The target lists each declared source once, and under it each declared path once; a
file that was recorded has its last record, and every other file is about to be processed. What
is to be removed are the last records of the paths that the target does not list, each once. Both
trees stand in order, whatever the order and the repetitions in spec, listing and status.

All this holds as long as no declared source bears the name of the inherited one. A source that
does has two groups in the target, which share its records.
-/

namespace DatasetSync

namespace FileTree

variable {fallback : String} {known rest : Recorded} {tree : FileTree} {group : SourceFiles}
  {source : QualifiedName} {file : FileRecord}

/-- Each source has one group, by name and namespace, and each path one file, in order. -/
structure Canonical (fallback : String) (tree : FileTree) : Prop where
  bySource : tree.Pairwise fun first second =>
    compare (rank fallback first) (rank fallback second) = .lt
  byPath : ∀ group ∈ tree, group.files.Pairwise fun first second =>
    compare first.path second.path = .lt

/-- The files that are listed under the source of a group are those of the group. -/
theorem Canonical.records_iff (canonical : tree.Canonical fallback) (member : group ∈ tree) :
    tree.Records fallback (group.source.qualified fallback) file ↔ file ∈ group.files := by
  constructor
  · rintro ⟨other, among, same, listed⟩
    have distinct : (tree.map (rank fallback)).Nodup := by
      refine List.pairwise_map.mpr (canonical.bySource.imp ?_)
      intro first second less equal
      rw [equal, Std.compare_self] at less
      cases less
    rwa [List.inj_on_of_nodup_map distinct member among (rank_eq_iff.mpr same.symm)]
  · exact fun listed => ⟨group, member, rfl, listed⟩

/-- Groups of different sources stand in strict order if they stand in order, as the rank of a group
tells its source. -/
theorem increasing_of_apart
    (apart : tree.Pairwise fun first second =>
      first.source.qualified fallback ≠ second.source.qualified fallback)
    (ordered : tree.Pairwise fun first second =>
      (compare (rank fallback first) (rank fallback second)).isLE) :
    tree.Pairwise fun first second =>
      compare (rank fallback first) (rank fallback second) = .lt := by
  refine (apart.and ordered).imp ?_
  rintro first second ⟨different, ordered⟩
  cases order : compare (rank fallback first) (rank fallback second) with
  | lt => rfl
  | eq => exact absurd (rank_eq_iff.mp (Std.LawfulEqOrd.eq_of_compare order)) different
  | gt => simp [order] at ordered

/-! ### Under which reference a source is recorded -/

/-- A comparison keeps the references under which sources are recorded, also of sources that it
takes all records of. -/
theorem reference_merge :
    ((merge fallback known tree).rest.get? source).map Prod.fst =
      (known.get? source).map Prod.fst := by
  induction tree generalizing known with
  | nil => rfl
  | cons group tree ih =>
    rw [merge]
    split
    · exact ih
    · rename_i reference files present
      refine ih.trans ?_
      rw [OrderedMap.get?_insert]
      split
      · rename_i own
        simp [← own, present]
      · rfl

/-- A source that is left over is recorded under a reference to it, that of its first group. -/
theorem reference_rest {tree' : FileTree} {entry : RecordedSource}
    (left : (merge fallback (recorded fallback tree) tree').rest.get? source = some entry) :
    (tree.find? fun group => group.source.qualified fallback = source).map SourceFiles.source =
        some entry.1 ∧ entry.1.qualified fallback = source := by
  have first : (tree.find? fun group => group.source.qualified fallback = source).map
      SourceFiles.source = some entry.1 := by
    rw [← reference_recorded, ← @reference_merge fallback _ tree', left]
    rfl
  obtain ⟨group, found, same⟩ := Option.map_eq_some_iff.mp first
  exact ⟨first, by simpa [same] using List.find?_some found⟩

/-! ### What is left over, as a tree -/

section LeftOver

variable (named : ∀ source entry, rest.get? source = some entry →
  entry.1.qualified fallback = source)

include named

/-- The files that are left over of a source are the records that are left over of it. -/
theorem records_leftOver_iff :
    (leftOver rest).Records fallback source file ↔
      ∃ path, rest.record? source path = some file := by
  constructor
  · rintro ⟨group, member, own, listed⟩
    obtain ⟨source', entry, found, -, rfl⟩ := group_leftOver_iff.mp member
    obtain rfl : source' = source := (named source' entry found).symm.trans own
    obtain ⟨path, present⟩ := OrderedMap.mem_values_iff.mp listed
    exact ⟨path, by rw [Recorded.record?, found]; exact present⟩
  · rintro ⟨path, found⟩
    obtain ⟨entry, present, found'⟩ := Option.bind_eq_some_iff.mp found
    have listed : file ∈ entry.2.values := OrderedMap.mem_values_iff.mpr ⟨path, found'⟩
    exact ⟨⟨entry.1, entry.2.values⟩, group_leftOver_iff.mpr
      ⟨source, entry, present, List.ne_nil_of_mem listed, rfl⟩, named source entry present, listed⟩

/-- What is left over has one group for each source, since records are kept by source. -/
theorem leftOver_apart : (leftOver rest).Pairwise fun first second =>
    first.source.qualified fallback ≠ second.source.qualified fallback := by
  have apart : rest.values.Pairwise fun first second =>
      first.1.qualified fallback ≠ second.1.qualified fallback := by
    refine List.pairwise_map.mpr (rest.increasing.imp_of_mem ?_)
    rintro ⟨source, entry⟩ ⟨source', entry'⟩ member member' less same
    rw [named source entry (OrderedMap.mem_toList_iff.mp member),
      named source' entry' (OrderedMap.mem_toList_iff.mp member')] at same
    rw [same, Std.compare_self] at less
    cases less
  exact List.pairwise_map.mpr (apart.filter _)

end LeftOver

/-- The records of a source stand in the order of their paths: each record lies under its own path,
and the paths are in order. -/
theorem increasing_values {files : OrderedMap String FileRecord}
    (keyed : ∀ path record, files.get? path = some record → record.path = path) :
    files.values.Pairwise fun first second => compare first.path second.path = .lt := by
  refine List.pairwise_map.mpr (files.increasing.imp_of_mem ?_)
  rintro ⟨path, record⟩ ⟨path', record'⟩ member member' less
  rwa [keyed path record (OrderedMap.mem_toList_iff.mp member),
    keyed path' record' (OrderedMap.mem_toList_iff.mp member')]

/-- What a comparison leaves over of the records of a tree is in canonical form once it is
sorted. -/
theorem canonical_leftOver (tree tree' : FileTree) :
    (sorted fallback (leftOver (merge fallback (recorded fallback tree) tree').rest)).Canonical
      fallback where
  bySource := increasing_of_apart
    ((Ordered.sortOn_perm _ _).symm.pairwise
      (leftOver_apart fun _ _ left => (reference_rest left).2) Ne.symm)
    (Ordered.sortOn_ordered (rank fallback) _)
  byPath group member := by
    obtain ⟨source, entry, found, -, rfl⟩ :=
      group_leftOver_iff.mp ((Ordered.sortOn_perm _ _).mem_iff.mp member)
    refine increasing_values fun path record present => ?_
    have left : (merge fallback (recorded fallback tree) tree').rest.record? source path =
        some record := by
      rw [Recorded.record?, found]
      exact present
    exact (records_of_record? (merge_rest_iff.mp left).1).2

end FileTree

namespace Document

open FileTree

variable {document : Document} {now : Timestamp} {lineage : List String} {source : QualifiedName}
  {path : String} {file : FileRecord}

/-- The last record of a source and a path. -/
def lastRecord? (document : Document) (source : QualifiedName) (path : String) :
    Option FileRecord :=
  document.files.lastFile? document.ns source path

/-- A version is to have a file: it declares the file, or inherits it from what its parent was
found to hold. -/
def Targets (document : Document) (lineage : List String) (source : QualifiedName)
    (path : String) : Prop :=
  document.Declares source path ∨
    (document.spec.parent?.isSome ∧
      document.lineageReference.qualified document.ns = source ∧ path ∈ lineage)

/-- The target lists exactly the files that the version is to have: those that it declares, and
those that it inherits. -/
theorem lists_target_iff_targets :
    (document.reconcile now lineage).target.files.Lists document.ns source path ↔
      document.Targets lineage source path :=
  lists_target_iff.trans lists_declaredTree_iff

/-- A target is in canonical form: one group for each source, in order, and the files of a group in
strict order of their paths. This needs that no declared source bears the name of the inherited one;
otherwise two groups have one source. -/
theorem canonical_target (plain : ¬ document.Shadows) :
    (document.reconcile now lineage).target.files.Canonical document.ns where
  bySource := by
    have apart : (document.reconcile now lineage).target.files.Pairwise fun first second =>
        first.source.qualified document.ns ≠ second.source.qualified document.ns := by
      refine List.pairwise_iff_getElem.mpr fun i j inside inside' less same => plain ?_
      exact ((earlier_iff_shadows (List.getElem?_eq_getElem inside')).mp
        ⟨i, _, less, List.getElem?_eq_getElem inside, same⟩).2
    have ordered : (document.reconcile now lineage).target.files.Pairwise fun first second =>
        (compare (rank document.ns first) (rank document.ns second)).isLE := by
      rw [target_files]
      exact Ordered.sortOn_ordered (rank document.ns) _
    exact increasing_of_apart apart ordered
  byPath := target_inOrder.byPath

/-- The files of a target are those that the version is to have. A file that was recorded has its
last record, and every other one is about to be processed. For the way back, the target lists the
path, and it lists nothing twice, so that the file that it lists is this one. -/
theorem records_target_iff (plain : ¬ document.Shadows) :
    (document.reconcile now lineage).target.files.Records document.ns source file ↔
      document.Targets lineage source file.path ∧
        file = (document.lastRecord? source file.path).getD (.blank file.path .processing) := by
  have forward : ∀ file,
      (document.reconcile now lineage).target.files.Records document.ns source file →
        file = (document.lastRecord? source file.path).getD (.blank file.path .processing) := by
    intro file records
    cases last : document.lastRecord? source file.path with
    | none =>
      rcases (entered_or_recorded records).2 with blank | recorded
      · exact blank
      · rw [Document.recorded, record?_recorded, ← lastRecord?, last] at recorded
        cases recorded
    | some record =>
      have recorded : document.recorded.record? source file.path = some record :=
        record?_recorded.trans last
      have listed := lists_target_iff.mp ⟨file, records, rfl⟩
      obtain ⟨group, member, own, inGroup⟩ := merge_records_of_recorded recorded listed
      have records' : (document.reconcile now lineage).target.files.Records document.ns source
          record := by
        rw [target_files]
        exact ⟨group, (Ordered.sortOn_perm _ _).mem_iff.mpr member, own, inGroup⟩
      exact Records.unique (nodup_entries_target plain) records records'
        (records_of_record? recorded).2.symm
  constructor
  · exact fun records => ⟨lists_target_iff_targets.mp ⟨file, records, rfl⟩, forward file records⟩
  · rintro ⟨targets, same⟩
    obtain ⟨other, records, named⟩ :=
      (@lists_target_iff_targets document now lineage _ _).mpr targets
    have equal := forward other records
    rw [named, ← same] at equal
    exact equal ▸ records

/-- The sources of a target are the declared ones and the inherited one. All of them have a group,
also those without files; the recorded sources do not matter. -/
theorem source_target_iff {reference : Reference} :
    (∃ group ∈ (document.reconcile now lineage).target.files, group.source = reference) ↔
      (∃ own ∈ document.spec.fileGroups,
          declaredReference (own.source.qualified document.ns) = reference) ∨
        document.lineageReference = reference := by
  constructor
  · rintro ⟨group, member, rfl⟩
    rcases source_of_mem_target member with ⟨source, same, own, among, rfl⟩ | same
    · exact .inl ⟨own, among, same.symm⟩
    · exact .inr same.symm
  · intro named
    obtain ⟨declared, own, same⟩ :
        ∃ declared ∈ document.declaredTree lineage, declared.source = reference := by
      rcases named with ⟨group, member, rfl⟩ | rfl
      · obtain ⟨paths, found⟩ := get?_declaredPaths_iff.mpr ⟨group, member, rfl⟩
        exact ⟨_, List.mem_append_left _ (List.mem_map.mpr
          ⟨_, OrderedMap.mem_toList_iff.mpr found, rfl⟩), rfl⟩
      · exact ⟨_, List.mem_append_right _ (List.mem_singleton_self _), by rw [inherited_eq]⟩
    obtain ⟨group, member, equal, -⟩ := @mem_target_of_declared document now lineage _ own
    exact ⟨group, member, equal.trans same⟩

/-- The removals are the last records of the paths that the target does not list. Records that are
hidden by a later one of their path are dropped without a removal of their own. -/
theorem records_deleted_iff :
    (document.reconcile now lineage).deleted.Records document.ns source file ↔
      document.lastRecord? source file.path = some file ∧
        ¬ (document.reconcile now lineage).target.files.Lists document.ns source file.path := by
  have moved : (document.reconcile now lineage).deleted.Records document.ns source file ↔
      (leftOver (merge document.ns document.recorded
        (document.declaredTree lineage)).rest).Records document.ns source file := by
    rw [deleted_eq]
    exact exists_congr fun group => and_congr_left fun _ => (Ordered.sortOn_perm _ _).mem_iff
  rw [moved, Document.recorded,
    records_leftOver_iff fun _ _ left => (reference_rest left).2, lists_target_iff, lastRecord?,
    ← record?_recorded]
  constructor
  · rintro ⟨path, left⟩
    obtain ⟨found, unlisted⟩ := merge_rest_iff.mp left
    obtain ⟨-, rfl⟩ := records_of_record? found
    exact ⟨found, unlisted⟩
  · rintro ⟨found, unlisted⟩
    exact ⟨file.path, merge_rest_iff.mpr ⟨found, unlisted⟩⟩

/-- A group of the removals has files, and the reference under which its source was recorded
first. -/
theorem group_deleted {group : SourceFiles}
    (member : group ∈ (document.reconcile now lineage).deleted) :
    group.files ≠ [] ∧
      (document.files.find? fun stored => stored.source.qualified document.ns =
        group.source.qualified document.ns).map SourceFiles.source = some group.source := by
  rw [deleted_eq] at member
  obtain ⟨source, entry, left, filled, rfl⟩ :=
    group_leftOver_iff.mp ((Ordered.sortOn_perm _ _).mem_iff.mp member)
  obtain ⟨first, rfl⟩ := reference_rest left
  exact ⟨filled, first⟩

/-- A comparison finds nothing new exactly if each source of the target was recorded, and each
file. -/
theorem unchanged_iff_recorded (plain : ¬ document.Shadows) :
    (document.reconcile now lineage).statusChanged = false ↔
      (∀ group ∈ (document.reconcile now lineage).target.files, ∃ stored ∈ document.files,
        stored.source.qualified document.ns = group.source.qualified document.ns) ∧
      ∀ group ∈ (document.reconcile now lineage).target.files, ∀ file ∈ group.files,
        document.lastRecord? (group.source.qualified document.ns) file.path ≠ none := by
  have known : ∀ source path, document.lastRecord? source path ≠ none ↔
      document.files.Lists document.ns source path := by
    intro source path
    rw [Option.ne_none_iff_isSome]
    exact isSome_lastFile?_iff
  rw [unchanged_iff, and_iff_right (not_doubles plain), and_comm]
  simp only [known]
  refine and_congr ⟨?_, ?_⟩ ⟨?_, ?_⟩
  · intro sources group member
    obtain ⟨declared, own, same, -⟩ := declared_of_mem_target member
    exact same ▸ sources declared own
  · intro sources declared own
    obtain ⟨group, member, same, -⟩ := @mem_target_of_declared document now lineage _ own
    exact same ▸ sources group member
  · intro files group member file listed
    exact files _ _ (lists_target_iff.mp ⟨file, ⟨group, member, rfl, listed⟩, rfl⟩)
  · intro files source path listed
    obtain ⟨file, ⟨group, member, rfl, inGroup⟩, rfl⟩ :=
      (@lists_target_iff document now lineage _ _).mpr listed
    exact files group member file inGroup

/-- An outcome is the difference between what a document declares and what it records. -/
structure Compares (document : Document) (lineage : List String) (outcome : Outcome) : Prop where
  /-- Each declared source has a group in the target, and so have the inherited files. -/
  sources : ∀ reference, (∃ group ∈ outcome.target.files, group.source = reference) ↔
    (∃ own ∈ document.spec.fileGroups,
        declaredReference (own.source.qualified document.ns) = reference) ∨
      document.lineageReference = reference
  /-- No group and no file is repeated, and all stand in order. -/
  target : outcome.target.files.Canonical document.ns
  /-- A group has the files that are to come from its source, with their last records. -/
  files : ∀ group ∈ outcome.target.files, ∀ file, file ∈ group.files ↔
    document.Targets lineage (group.source.qualified document.ns) file.path ∧
      file = (document.lastRecord? (group.source.qualified document.ns) file.path).getD
        (.blank file.path .processing)
  /-- The removals are the last records of what the target does not list. -/
  removals : ∀ source file, outcome.deleted.Records document.ns source file ↔
    document.lastRecord? source file.path = some file ∧
      ¬ outcome.target.files.Lists document.ns source file.path
  deleted : outcome.deleted.Canonical document.ns
  /-- No group of removals is empty, and each has the reference that was recorded first. -/
  groups : ∀ group ∈ outcome.deleted, group.files ≠ [] ∧
    (document.files.find? fun stored => stored.source.qualified document.ns =
      group.source.qualified document.ns).map SourceFiles.source = some group.source
  /-- A change is a source without a recorded group, or a file without a record. -/
  changed : outcome.statusChanged = true ↔
    (∃ group ∈ outcome.target.files, ∀ stored ∈ document.files,
      stored.source.qualified document.ns ≠ group.source.qualified document.ns) ∨
    ∃ group ∈ outcome.target.files, ∃ file ∈ group.files,
      document.lastRecord? (group.source.qualified document.ns) file.path = none

/-- A comparison comes to the difference between what a document declares and what it records, if
no declared source bears the name of the inherited one. -/
theorem reconcile_compares (document : Document) (now : Timestamp) (lineage : List String)
    (plain : ¬ document.Shadows) : document.Compares lineage (document.reconcile now lineage) where
  sources _ := source_target_iff
  target := canonical_target plain
  files group member file :=
    ((canonical_target plain).records_iff member).symm.trans (records_target_iff plain)
  removals _ _ := records_deleted_iff
  deleted := by
    rw [deleted_eq]
    exact canonical_leftOver _ _
  groups _ := group_deleted
  changed := by
    rw [← Bool.not_eq_false, unchanged_iff_recorded plain, not_and_or]
    simp only [not_forall, not_exists, not_and, ne_eq, not_not, exists_prop]

/-- A document that repeats sources and paths in its spec and in its status. -/
def untidyDocument : Document :=
  let source (ns : Option String) (name : String) : Reference :=
    { apiGroup := none, kind := Reference.datasourceKind, name, ns }
  { metadata := { Metadata.empty with name := some "ds-v1", ns := some "team-a" }
    spec :=
      { dataset := { apiGroup := none, kind := "Dataset", name := "ds", ns := none }
        version := "v1", inheritedFrom := some "v0", released := false
        fileGroups :=
          [⟨source none "x", ["b.txt", "a.txt", "a.txt"]⟩,
            ⟨source (some "team-a") "x", ["c.txt"]⟩] }
    status := some
      { conditions := []
        files :=
          [⟨source none "x", [.blank "a.txt" .failed, .blank "z.txt" .succeeded]⟩,
            ⟨source (some "team-a") "x",
              [.blank "c.txt" .succeeded, .blank "a.txt" .succeeded]⟩] } }

/-- The later of the two records of a path is kept, and what is not declared is left over under the
reference of the first group. -/
theorem untidyDocument_compares :
    ¬ untidyDocument.Shadows ∧
      untidyDocument.Compares ["p.txt"] (untidyDocument.reconcile "" ["p.txt"]) ∧
      (untidyDocument.reconcile "" ["p.txt"]).target.files.map SourceFiles.files =
        [[.blank "p.txt" .processing],
          [.blank "a.txt" .succeeded, .blank "b.txt" .processing, .blank "c.txt" .succeeded]] ∧
      (untidyDocument.reconcile "" ["p.txt"]).deleted =
        [⟨⟨none, Reference.datasourceKind, "x", none⟩, [.blank "z.txt" .succeeded]⟩] := by
  have plain : ¬ untidyDocument.Shadows := by
    unfold Shadows
    decide
  exact ⟨plain, reconcile_compares untidyDocument "" ["p.txt"] plain, by decide, by decide⟩

end Document

end DatasetSync
