import Mathlib.Data.List.Nodup
import DatasetSync.Proofs.FileTree.Record

/-!
# When a comparison finds nothing new

A comparison takes each record for one listed file only. So it finds nothing new exactly if all
sources and all files of the declaration are recorded and no file is listed twice under one
source. A file that is listed twice is therefore new in every comparison, whatever is recorded.

The only file that a declaration can list twice is one that the parent version holds and that a
declared source with the name of the inherited one declares as well.
-/

namespace DatasetSync

namespace FileTree

variable {fallback : String} {known : Recorded} {tree tree' : FileTree} {source : QualifiedName}
  {path : String}

/-- The sources and paths that a tree lists, in stored order and each as often as it is listed. -/
def entries (fallback : String) (tree : FileTree) : List (QualifiedName × String) :=
  tree.flatMap fun group => group.files.map fun file => (group.source.qualified fallback, file.path)

/-- A tree lists the files of its first group, and then those of the others. -/
theorem entries_cons (group : SourceFiles) (tree : FileTree) :
    entries fallback (group :: tree) =
      group.files.map (fun file => (group.source.qualified fallback, file.path)) ++
        entries fallback tree := rfl

/-- A tree lists a path under a source exactly if this pair is among its entries. -/
theorem mem_entries_iff :
    (source, path) ∈ entries fallback tree ↔ tree.Lists fallback source path := by
  induction tree with
  | nil => simp [entries, Lists, records_nil_iff]
  | cons group tree ih =>
    rw [entries_cons, List.mem_append, ih, lists_cons_iff]
    simp only [List.mem_map, Prod.mk.injEq]
    refine or_congr_left ⟨?_, ?_⟩
    · rintro ⟨file, member, own, same⟩
      exact ⟨own, file, member, same⟩
    · rintro ⟨own, file, member, same⟩
      exact ⟨file, member, own, same⟩

/-- What a tree lists is read off its sources and paths. Phases, checksums and times do not enter
into it. -/
theorem entries_eq_outline : entries fallback tree =
    tree.outline.flatMap fun entry => entry.2.map fun path => (entry.1.qualified fallback, path) := by
  simp [entries, outline, List.flatMap_map, Function.comp_def]

/-- Trees with the same sources and paths list the same files, whatever has become of these. -/
theorem lists_of_outline (same : tree.outline = tree'.outline) :
    tree.Lists fallback source path ↔ tree'.Lists fallback source path := by
  rw [← mem_entries_iff, ← mem_entries_iff, entries_eq_outline, entries_eq_outline, same]

/-- Adoption finds nothing new exactly if no path is repeated and all of them are recorded. A record
that was taken is found no more, so a path that comes again is new for the second time. -/
theorem adopt_anyNew_iff {known : OrderedMap String FileRecord} {files : List FileRecord} :
    (adopt known files).anyNew = false ↔
      (files.map FileRecord.path).Nodup ∧ ∀ file ∈ files, (known.get? file.path).isSome := by
  induction files generalizing known with
  | nil => simp [adopt]
  | cons file files ih =>
    rw [adopt, List.map_cons, List.nodup_cons, List.forall_mem_cons]
    split
    · rename_i existing found
      dsimp only
      rw [ih, found]
      have later : (∀ other ∈ files, ((known.erase file.path).get? other.path).isSome) ↔
          file.path ∉ files.map FileRecord.path ∧
            ∀ other ∈ files, (known.get? other.path).isSome := by
        constructor
        · intro found'
          refine ⟨fun member => ?_, fun other member => ?_⟩
          · obtain ⟨other, listed, same⟩ := List.mem_map.mp member
            have erased := found' other listed
            simp [same] at erased
          · have kept := found' other member
            rw [OrderedMap.get?_erase] at kept
            split at kept
            · cases kept
            · exact kept
        · rintro ⟨distinct, found'⟩ other member
          have different : file.path ≠ other.path := fun same =>
            distinct (same ▸ List.mem_map_of_mem member)
          rw [OrderedMap.get?_erase, if_neg different]
          exact found' other member
      rw [later]
      simp only [Option.isSome_some, true_and]
      tauto
    · rename_i missing
      simp [missing]

/-- What is recorded after the files of a group have taken their records: what was recorded
before, without the paths of the group. -/
theorem isSome_taken_iff {group : SourceFiles} {reference : Reference}
    {files : OrderedMap String FileRecord}
    (present : known.get? (group.source.qualified fallback) = some (reference, files)) :
    (Recorded.record? (known.insert (group.source.qualified fallback)
        (reference, (adopt files group.files).rest)) source path).isSome ↔
      (known.record? source path).isSome ∧
        ¬ (group.source.qualified fallback = source ∧ ∃ file ∈ group.files, file.path = path) := by
  rw [record?_insert]
  split
  · rename_i same
    subst same
    rw [Recorded.record?, present]
    simp only [Option.bind_some, Option.isSome_iff_exists, adopt_rest_iff, true_and]
    constructor
    · rintro ⟨record, found, others⟩
      refine ⟨⟨record, found⟩, ?_⟩
      rintro ⟨file, member, equal⟩
      exact others file member equal
    · rintro ⟨⟨record, found⟩, others⟩
      exact ⟨record, found, fun file member equal => others ⟨file, member, equal⟩⟩
  · rename_i other
    simp [other]

/-- A source that is recorded stays recorded when it is given other records, even if these are none,
and no other source is added. -/
theorem isSome_insert {entry entry' : RecordedSource} {replaced : QualifiedName}
    (present : known.get? replaced = some entry) (other : QualifiedName) :
    ((known.insert replaced entry').get? other).isSome ↔ (known.get? other).isSome := by
  rw [OrderedMap.get?_insert]
  split
  · rename_i same
    subst same
    simp [present]
  · rfl

/-- The entries of a tree with one more group are distinct if those of the group and of the tree
are, and no path of the group is listed under its source elsewhere. -/
theorem nodup_entries_cons {group : SourceFiles} {tree : FileTree} :
    (entries fallback (group :: tree)).Nodup ↔
      (group.files.map FileRecord.path).Nodup ∧ (entries fallback tree).Nodup ∧
        ∀ file ∈ group.files, ¬ tree.Lists fallback (group.source.qualified fallback) file.path := by
  have paths : (group.files.map fun file =>
      (group.source.qualified fallback, file.path)).Nodup ↔
        (group.files.map FileRecord.path).Nodup := by
    simp only [List.nodup_iff_pairwise_ne, List.pairwise_map, ne_eq, Prod.mk.injEq, true_and]
  rw [entries_cons, List.nodup_append, paths]
  refine and_congr_right fun _ => and_congr_right fun _ => ⟨?_, ?_⟩
  · intro distinct file member listed
    exact distinct _ (List.mem_map_of_mem member) _ (mem_entries_iff.mpr listed) rfl
  · rintro distinct first member second listed rfl
    obtain ⟨file, among, rfl⟩ := List.mem_map.mp member
    exact distinct file among (mem_entries_iff.mp listed)

/-- A comparison finds nothing new exactly if nothing is listed twice and all files and sources
are recorded. -/
theorem merge_anyNew_iff {tree : FileTree} :
    (merge fallback known tree).anyNew = false ↔
      (entries fallback tree).Nodup ∧
        (∀ source path, tree.Lists fallback source path → (known.record? source path).isSome) ∧
        ∀ group ∈ tree, (known.get? (group.source.qualified fallback)).isSome := by
  induction tree generalizing known with
  | nil => simp [merge, entries, Lists, records_nil_iff]
  | cons group tree ih =>
    rw [merge, nodup_entries_cons, List.forall_mem_cons]
    split
    · rename_i missing
      simp [missing]
    · rename_i reference files present
      have own : ∀ path, known.record? (group.source.qualified fallback) path = files.get? path := by
        intro path
        rw [Recorded.record?, present]
        rfl
      dsimp only
      rw [Bool.or_eq_false_iff, adopt_anyNew_iff, ih, present]
      simp only [isSome_taken_iff present, isSome_insert present, lists_cons_iff]
      constructor
      · rintro ⟨⟨paths, adopted⟩, distinct, found, groups⟩
        refine ⟨⟨paths, distinct, fun file member listed => ?_⟩, ?_, rfl, groups⟩
        · exact (found _ _ listed).2 ⟨rfl, file, member, rfl⟩
        · rintro source path (⟨rfl, file, member, rfl⟩ | listed)
          · exact (own file.path).symm ▸ adopted file member
          · exact (found source path listed).1
      · rintro ⟨⟨paths, distinct, apart⟩, found, -, groups⟩
        refine ⟨⟨paths, fun file member => ?_⟩, distinct, fun source path listed => ?_, groups⟩
        · exact own file.path ▸ found _ _ (.inl ⟨rfl, file, member, rfl⟩)
        · refine ⟨found source path (.inr listed), ?_⟩
          rintro ⟨rfl, file, member, rfl⟩
          exact apart file member listed

/-- What is adopted without anything new are the records of the paths, each under its own path. -/
theorem adopt_recorded {known : OrderedMap String FileRecord} {files : List FileRecord}
    (keyed : ∀ path record, known.get? path = some record → record.path = path)
    (nothing : (adopt known files).anyNew = false) :
    ∀ file ∈ (adopt known files).files, known.get? file.path = some file := by
  induction files generalizing known with
  | nil => simp [adopt]
  | cons first files ih =>
    rw [adopt] at nothing ⊢
    split at nothing
    · rename_i existing found
      dsimp only at nothing ⊢
      have erased : ∀ path record, (known.erase first.path).get? path = some record →
          known.get? path = some record := by
        intro path record present
        rw [OrderedMap.get?_erase] at present
        split at present
        · cases present
        · exact present
      intro file member
      rcases List.mem_cons.mp member with rfl | later
      · rw [keyed _ _ found]
        exact found
      · exact erased _ _ (ih (fun path record present =>
          keyed path record (erased path record present)) nothing file later)
    · cases nothing

/-- A comparison that finds nothing new lists the records: every file of the target is what is
recorded under its source and path. -/
theorem merge_recorded (keyed : known.Keyed) (nothing : (merge fallback known tree).anyNew = false)
    {file : FileRecord} (records : (merge fallback known tree).tree.Records fallback source file) :
    known.record? source file.path = some file := by
  induction tree generalizing known with
  | nil => exact absurd records records_nil_iff
  | cons group tree ih =>
    rw [merge] at nothing records
    split at nothing
    · cases nothing
    · rename_i reference files present
      rw [present] at records
      dsimp only at nothing records
      obtain ⟨adopted, later⟩ := Bool.or_eq_false_iff.mp nothing
      rcases records_cons_iff.mp records with ⟨rfl, member⟩ | records
      · rw [Recorded.record?, present]
        exact adopt_recorded (Recorded.Keyed.files keyed present) adopted file member
      · have found := ih (Recorded.Keyed.adopted keyed present group.files) later records
        rw [record?_insert] at found
        split at found
        · rename_i same
          subst same
          rw [Recorded.record?, present]
          exact (adopt_rest_iff.mp found).1
        · exact found

/-- Two files that are listed under one source and one path are the same if nothing is listed
twice. -/
theorem Records.unique {file file' : FileRecord} (distinct : (entries fallback tree).Nodup)
    (records : tree.Records fallback source file) (records' : tree.Records fallback source file')
    (same : file.path = file'.path) : file = file' := by
  let pairs : List (QualifiedName × FileRecord) :=
    tree.flatMap fun group => group.files.map (group.source.qualified fallback, ·)
  have mapped : entries fallback tree = pairs.map fun pair => (pair.1, pair.2.path) := by
    simp [entries, pairs, List.map_flatMap, Function.comp_def]
  have member : ∀ file, tree.Records fallback source file → (source, file) ∈ pairs := by
    rintro file ⟨group, listed, rfl, inGroup⟩
    exact List.mem_flatMap.mpr ⟨group, listed, List.mem_map_of_mem inGroup⟩
  rw [mapped] at distinct
  have equal : (source, file) = (source, file') :=
    List.inj_on_of_nodup_map distinct (member file records) (member file' records')
      (Prod.ext rfl same)
  exact (Prod.mk.inj equal).2

/-- The sources that are recorded are those of the groups, also of groups without files. -/
theorem isSome_recorded_iff :
    ((recorded fallback tree).get? source).isSome ↔
      ∃ group ∈ tree, group.source.qualified fallback = source := by
  rw [← Option.isSome_map (f := Prod.fst), reference_recorded, Option.isSome_map,
    List.find?_isSome]
  simp only [decide_eq_true_eq]

/-- The files that are recorded are those that are listed. -/
theorem isSome_record?_iff :
    ((recorded fallback tree).record? source path).isSome ↔ tree.Lists fallback source path := by
  rw [record?_recorded, isSome_lastFile?_iff]

/-- Sorting looks at the sources only, so it commutes with the outline: trees of one outline have
one outline when they are sorted. -/
theorem outline_sorted (same : tree.outline = tree'.outline) :
    (sorted fallback tree).outline = (sorted fallback tree').outline := by
  let rankOf (entry : Reference × List String) : QualifiedName :=
    ⟨entry.1.name, entry.1.nsOr fallback⟩
  have commutes : ∀ tree : FileTree, (sorted fallback tree).outline =
      Ordered.sortOn rankOf tree.outline := by
    intro tree
    exact (Ordered.sortOn_map rankOf _ tree).symm
  rw [commutes, commutes, same]

/-- A tree is another one if it has its sources and paths, and lists under each source files of
the other one, which lists nothing twice. -/
theorem eq_of_outline (same : tree.outline = tree'.outline)
    (distinct : (entries fallback tree').Nodup)
    (listed : ∀ source file, tree.Records fallback source file →
      tree'.Records fallback source file) : tree = tree' := by
  have sources : tree.map SourceFiles.source = tree'.map SourceFiles.source := by
    simpa [outline, Function.comp_def] using congrArg (List.map Prod.fst) same
  have paths : tree.map (fun group => group.files.map FileRecord.path) =
      tree'.map fun group => group.files.map FileRecord.path := by
    simpa [outline, Function.comp_def] using congrArg (List.map Prod.snd) same
  refine List.ext_getElem (by simpa using congrArg List.length sources) fun i inside inside' => ?_
  have source : tree[i].source = tree'[i].source := by
    simpa [inside, inside'] using congrArg (·[i]?) sources
  have path : tree[i].files.map FileRecord.path = tree'[i].files.map FileRecord.path := by
    simpa [inside, inside'] using congrArg (·[i]?) paths
  have files : tree[i].files = tree'[i].files := by
    refine List.ext_getElem (by simpa using congrArg List.length path) fun j within within' => ?_
    have own : tree[i].files[j].path = tree'[i].files[j].path := by
      simpa [within, within'] using congrArg (·[j]?) path
    refine Records.unique distinct (listed _ _ ⟨tree[i], List.getElem_mem inside, rfl,
      List.getElem_mem within⟩) ?_ own
    exact ⟨tree'[i], List.getElem_mem inside', by rw [source], List.getElem_mem within'⟩
  cases first : tree[i]
  cases second : tree'[i]
  simp_all

end FileTree

end DatasetSync
