import DatasetSync.Proofs.FileTree.Diff
import DatasetSync.Proofs.FileTree.Find

/-!
# The form of a target

A comparison fills in what is known about files and moves groups, but it neither adds nor
drops a source or a path: the target lists what the document declares, one group for each
declared source and one more for the inherited files, in order of the names. Two groups of the
target have one source only if a declared source bears the name of the inherited one; the
declared group then stands first.
-/

namespace DatasetSync

/-- Every record lies under its own path. -/
def Recorded.Keyed (known : Recorded) : Prop :=
  ∀ source path record, known.record? source path = some record → record.path = path

namespace FileTree

variable {fallback : String} {known : Recorded}

/-- The sources of a tree and the paths that it lists under each of them. -/
def outline (tree : FileTree) : List (Reference × List String) :=
  tree.map fun group => (group.source, group.files.map FileRecord.path)

/-- Adoption keeps the paths, since each record lies under its own path. -/
theorem paths_adopt {known : OrderedMap String FileRecord}
    (keyed : ∀ path record, known.get? path = some record → record.path = path)
    (files : List FileRecord) :
    (adopt known files).files.map FileRecord.path = files.map FileRecord.path := by
  induction files generalizing known with
  | nil => rfl
  | cons file files ih =>
    rw [adopt]
    split
    · rename_i existing found
      have erased : ∀ path record, (known.erase file.path).get? path = some record →
          record.path = path := by
        intro path record present
        rw [OrderedMap.get?_erase] at present
        split at present
        · cases present
        · exact keyed path record present
      simp only [List.map_cons, ih erased, keyed _ _ found]
    · simp only [List.map_cons, ih keyed]

/-- The records of one source lie under their own paths. -/
theorem Recorded.Keyed.files (keyed : known.Keyed) {source : QualifiedName}
    {entry : RecordedSource} (present : known.get? source = some entry) (path : String)
    (record : FileRecord) (found : entry.2.get? path = some record) : record.path = path :=
  keyed source path record (by rw [Recorded.record?, present]; exact found)

/-- What adoption leaves over lies under its own paths, as nothing is moved by it. -/
theorem Recorded.Keyed.adopted (keyed : known.Keyed) {source : QualifiedName}
    {entry : RecordedSource} (present : known.get? source = some entry)
    (files : List FileRecord) :
    Recorded.Keyed (known.insert source (entry.1, (adopt entry.2 files).rest)) := by
  intro other path record found
  rw [record?_insert] at found
  split at found
  · exact Recorded.Keyed.files keyed present path record (adopt_rest_iff.mp found).1
  · exact keyed other path record found

/-- A comparison keeps sources and paths of the tree that it fills. Only the files are replaced,
each by a record of its own path. -/
theorem outline_merge (keyed : known.Keyed) (tree : FileTree) :
    (merge fallback known tree).tree.outline = tree.outline := by
  induction tree generalizing known with
  | nil => rfl
  | cons group tree ih =>
    rw [merge]
    split
    · exact congrArg (_ :: ·) (ih keyed)
    · rename_i reference files present
      have kept := paths_adopt (Recorded.Keyed.files keyed present) group.files
      have rest := ih (Recorded.Keyed.adopted keyed present group.files)
      simp only [outline, List.map_cons] at rest ⊢
      rw [kept, rest]

/-- What is recorded of a tree lies under its own paths. -/
theorem keyed_recorded (tree : FileTree) : (recorded fallback tree).Keyed :=
  fun _ _ _ found => (records_of_record? found).2

/-- The paths of a source after the groups were added one by one are those from before and those of
all groups of this source. The induction is on the groups; each one alters the set of its own source
only. -/
theorem declaredPaths_foldl_iff {groups : List FileGroup} {source : QualifiedName} {path : String}
    (before : OrderedMap QualifiedName (OrderedSet String)) :
    (∃ paths, (groups.foldl (fun declared group =>
        declared.alter (group.source.qualified fallback) fun paths =>
          (paths.getD .empty).insertMany group.paths) before).get? source = some paths ∧
        path ∈ paths) ↔
      (∃ paths, before.get? source = some paths ∧ path ∈ paths) ∨
        ∃ group ∈ groups, group.source.qualified fallback = source ∧ path ∈ group.paths := by
  induction groups generalizing before with
  | nil => simp
  | cons group groups ih =>
    rw [List.foldl_cons, ih, OrderedMap.get?_alter]
    by_cases own : group.source.qualified fallback = source
    · subst own
      cases former : before.get? (group.source.qualified fallback) <;>
        simp [or_assoc]
    · simp [own]

/-- The declared paths of a source are those of all groups of this source, however they are spread
over the groups. -/
theorem mem_declaredPaths_iff {groups : List FileGroup} {source : QualifiedName} {path : String} :
    (∃ paths, (declaredPaths fallback groups).get? source = some paths ∧ path ∈ paths) ↔
      ∃ group ∈ groups, group.source.qualified fallback = source ∧ path ∈ group.paths := by
  rw [declaredPaths, declaredPaths_foldl_iff]
  simp

/-- The sources with declared paths, even if these are none, are those of the groups. -/
theorem get?_declaredPaths_iff {groups : List FileGroup} {source : QualifiedName} :
    (∃ paths, (declaredPaths fallback groups).get? source = some paths) ↔
      ∃ group ∈ groups, group.source.qualified fallback = source := by
  have grown : ∀ before : OrderedMap QualifiedName (OrderedSet String),
      (∃ paths, (groups.foldl (fun declared group =>
          declared.alter (group.source.qualified fallback) fun paths =>
            (paths.getD .empty).insertMany group.paths) before).get? source = some paths) ↔
        (∃ paths, before.get? source = some paths) ∨
          ∃ group ∈ groups, group.source.qualified fallback = source := by
    induction groups with
    | nil => simp
    | cons group groups ih =>
      intro before
      rw [List.foldl_cons, ih, OrderedMap.get?_alter]
      by_cases own : group.source.qualified fallback = source <;> simp [own]
  rw [declaredPaths, grown]
  simp

/-- Groups rank the same exactly if they have one source. So sorting by rank brings the groups of
one source together. -/
theorem rank_eq_iff {first second : SourceFiles} :
    rank fallback first = rank fallback second ↔
      first.source.qualified fallback = second.source.qualified fallback := by
  simp only [rank, Reference.qualified, QualifiedName.mk.injEq]
  exact and_comm

/-- Groups that stand in order of their ranks stand in order of the names of their sources. -/
theorem name_le_of_rank {first second : SourceFiles}
    (ordered : (compare (rank fallback first) (rank fallback second)).isLE = true) :
    first.source.name ≤ second.source.name := by
  rw [← compare_le_iff_le]
  intro greater
  have behind : compare (rank fallback first) (rank fallback second) = .gt := by
    simp only [compare, compareLex, compareOn, rank] at greater ⊢
    rw [greater]
    rfl
  rw [behind] at ordered
  cases ordered

/-- The reference under which the files of a declared source are listed. -/
def declaredReference (source : QualifiedName) : Reference :=
  { apiGroup := none, kind := Reference.datasourceKind, name := source.name, ns := some source.ns }

/-- The reference that is written for a source names this source, whatever namespace stands in for a
missing one: it has a namespace of its own. -/
@[simp] theorem qualified_declaredReference (source : QualifiedName) (fallback : String) :
    (declaredReference source).qualified fallback = source := rfl

/-- The files that are entered for a set of paths have these paths, in the order of the set. -/
@[simp] theorem paths_fresh (paths : OrderedSet String) :
    (fresh paths).map FileRecord.path = paths.toList := by
  simp [fresh, FileRecord.blank, Function.comp_def]

/-- Each declared group has another source than all others, since the declared groups of one source
were joined. -/
theorem declared_apart (groups : List FileGroup) :
    (declared fallback groups).Pairwise fun first second =>
      first.source.qualified fallback ≠ second.source.qualified fallback := by
  refine List.pairwise_map.mpr ((declaredPaths fallback groups).increasing.imp ?_)
  intro first second less
  change first.1 ≠ second.1
  intro same
  rw [same, Std.compare_self] at less
  cases less

/-- A group of the declared files is that of a declared source: it has the reference that is written
for the source and a blank file for each of its paths. -/
theorem mem_declared {groups : List FileGroup} {group : SourceFiles}
    (member : group ∈ declared fallback groups) :
    ∃ source paths, (declaredPaths fallback groups).get? source = some paths ∧
      group = ⟨declaredReference source, fresh paths⟩ := by
  obtain ⟨⟨source, paths⟩, entry, rfl⟩ := List.mem_map.mp member
  exact ⟨source, paths, OrderedMap.mem_toList_iff.mp entry, rfl⟩

end FileTree

namespace Document

variable {document : Document} {now : Timestamp} {lineage : List String} {group : SourceFiles}

/-- The reference under which the inherited files of a version are listed. -/
def lineageReference (document : Document) : Reference :=
  { apiGroup := none, kind := Reference.versionedDatasetKind
    name := Layout.lineageName (document.spec.parent?.getD document.spec.version)
    ns := some document.ns }

/-- A declared source bears the name under which the inherited files are listed. -/
def Shadows (document : Document) : Prop :=
  ∃ group ∈ document.spec.fileGroups,
    group.source.qualified document.ns = document.lineageReference.qualified document.ns

/-- The inherited files are listed under their own reference, and there are some only if there
is a parent version. -/
theorem inherited_eq (document : Document) (lineage : List String) :
    FileTree.inherited document.ns document.spec lineage =
      { source := document.lineageReference
        files := if document.spec.parent?.isSome then FileTree.fresh (.ofList lineage) else [] } := by
  unfold FileTree.inherited lineageReference
  cases document.spec.parent? <;> rfl

/-- What a document declares falls into the groups of declared sources and one group of
inherited files. -/
theorem mem_declaredTree (member : group ∈ document.declaredTree lineage) :
    (∃ source paths, (FileTree.declaredPaths document.ns document.spec.fileGroups).get? source =
        some paths ∧ group = ⟨FileTree.declaredReference source, FileTree.fresh paths⟩) ∨
      group = FileTree.inherited document.ns document.spec lineage := by
  rcases List.mem_append.mp member with own | inherited
  · exact .inl (FileTree.mem_declared own)
  · exact .inr (List.mem_singleton.mp inherited)

/-- Of two groups with one source the first one was declared, and the second one holds the
inherited files. -/
def DeclaredFirst (first second : Reference) : Prop :=
  first.kind = Reference.datasourceKind ∧ second.kind = Reference.versionedDatasetKind

/-- Two groups of what a document declares have one source only if one is a declared one and the
other one, behind it, that of the lineage. -/
theorem declaredTree_apart (document : Document) (lineage : List String) :
    (document.declaredTree lineage).Pairwise fun first second =>
      first.source.qualified document.ns = second.source.qualified document.ns →
        DeclaredFirst first.source second.source := by
  refine List.pairwise_append.mpr ⟨?_, List.pairwise_singleton _ _, ?_⟩
  · exact (FileTree.declared_apart document.spec.fileGroups).imp fun distinct same =>
      absurd same distinct
  · intro first own second inherited _
    obtain ⟨source, paths, -, rfl⟩ := FileTree.mem_declared own
    rw [List.mem_singleton.mp inherited, inherited_eq]
    exact ⟨rfl, rfl⟩

/-- A target lists what the document declares, group by group; sorting is all that tells them
apart. -/
theorem outline_target_perm :
    ((document.reconcile now lineage).target.files.outline).Perm
      (document.declaredTree lineage).outline := by
  have kept : (FileTree.merge document.ns document.recorded
      (document.declaredTree lineage)).tree.outline = (document.declaredTree lineage).outline :=
    FileTree.outline_merge (FileTree.keyed_recorded document.files) _
  rw [target_files, ← kept]
  exact (Ordered.sortOn_perm (FileTree.rank document.ns) _).map _

/-- A group of a target is declared, with its source and its paths. -/
theorem declared_of_mem_target (member : group ∈ (document.reconcile now lineage).target.files) :
    ∃ declared ∈ document.declaredTree lineage, declared.source = group.source ∧
      declared.files.map FileRecord.path = group.files.map FileRecord.path := by
  have listed : (group.source, group.files.map FileRecord.path) ∈
      (document.reconcile now lineage).target.files.outline := List.mem_map_of_mem member
  obtain ⟨declared, own, same⟩ := List.mem_map.mp (outline_target_perm.mem_iff.mp listed)
  exact ⟨declared, own, (Prod.mk.inj same).1, (Prod.mk.inj same).2⟩

/-- What is declared has a group in the target, with its source and its paths. -/
theorem mem_target_of_declared {declared : SourceFiles}
    (own : declared ∈ document.declaredTree lineage) :
    ∃ group ∈ (document.reconcile now lineage).target.files, group.source = declared.source ∧
      group.files.map FileRecord.path = declared.files.map FileRecord.path := by
  have listed : (declared.source, declared.files.map FileRecord.path) ∈
      (document.declaredTree lineage).outline := List.mem_map_of_mem own
  obtain ⟨group, member, same⟩ := List.mem_map.mp (outline_target_perm.mem_iff.mpr listed)
  exact ⟨group, member, (Prod.mk.inj same).1, (Prod.mk.inj same).2⟩

/-- The source of a group of a target is a declared one or the inherited one. -/
theorem source_of_mem_target (member : group ∈ (document.reconcile now lineage).target.files) :
    (∃ source, group.source = FileTree.declaredReference source ∧
        ∃ own ∈ document.spec.fileGroups, own.source.qualified document.ns = source) ∨
      group.source = document.lineageReference := by
  obtain ⟨declared, own, same, -⟩ := declared_of_mem_target member
  rw [← same]
  rcases mem_declaredTree own with ⟨source, paths, found, rfl⟩ | rfl
  · exact .inl ⟨source, rfl, FileTree.get?_declaredPaths_iff.mp ⟨paths, found⟩⟩
  · rw [inherited_eq]
    exact .inr rfl

/-- A group of a target is in a namespace of its own, so it does not matter which one stands in for
a missing namespace. -/
theorem qualified_of_mem_target (member : group ∈ (document.reconcile now lineage).target.files)
    (fallback : String) :
    group.source.qualified fallback = group.source.qualified document.ns := by
  rcases source_of_mem_target member with ⟨source, same, -⟩ | same <;> rw [same] <;> rfl

/-- A target stands in order: its groups by the name of their source, and the files of a group by
their paths. -/
theorem target_inOrder : (document.reconcile now lineage).target.files.InOrder where
  byName := by
    rw [target_files]
    exact (Ordered.sortOn_ordered (FileTree.rank document.ns) _).imp FileTree.name_le_of_rank
  byPath group member := by
    obtain ⟨declared, own, -, same⟩ := declared_of_mem_target member
    have increasing : (declared.files.map FileRecord.path).Pairwise
        fun first second => compare first second = .lt := by
      rcases mem_declaredTree own with ⟨source, paths, -, rfl⟩ | rfl
      · rw [FileTree.paths_fresh]
        exact paths.increasing
      · rw [inherited_eq]
        dsimp only
        split
        · rw [FileTree.paths_fresh]
          exact (OrderedSet.ofList lineage).increasing
        · exact .nil
    rw [same] at increasing
    exact List.pairwise_map.mp increasing

/-- Of two groups of a target with one source the first one was declared, and the second one
holds the inherited files. -/
theorem target_apart :
    ((document.reconcile now lineage).target.files).Pairwise fun first second =>
      first.source.qualified document.ns = second.source.qualified document.ns →
        DeclaredFirst first.source second.source := by
  have sources : ∀ tree other : FileTree, tree.outline = other.outline →
      tree.map SourceFiles.source = other.map SourceFiles.source := by
    intro tree other same
    have first := congrArg (List.map Prod.fst) same
    simpa [FileTree.outline, Function.comp_def] using first
  have merged : (FileTree.merge document.ns document.recorded
      (document.declaredTree lineage)).tree.Pairwise fun first second =>
        first.source.qualified document.ns = second.source.qualified document.ns →
          DeclaredFirst first.source second.source := by
    have apart := document.declaredTree_apart lineage
    let related (first second : Reference) : Prop :=
      first.qualified document.ns = second.qualified document.ns → DeclaredFirst first second
    have mapped : ((document.declaredTree lineage).map SourceFiles.source).Pairwise related :=
      List.pairwise_map.mpr apart
    rw [← sources _ _ (FileTree.outline_merge (FileTree.keyed_recorded document.files) _)] at mapped
    exact List.pairwise_map.mp mapped
  rw [target_files]
  simp only [← FileTree.rank_eq_iff] at merged ⊢
  exact Ordered.sortOn_stable merged

/-- A group of a target stands behind another one with the same source exactly if it is that of
the inherited files, and a declared source bears its name. -/
theorem earlier_iff_shadows {i : Nat}
    (present : (document.reconcile now lineage).target.files[i]? = some group) :
    (∃ earlier other, earlier < i ∧
        (document.reconcile now lineage).target.files[earlier]? = some other ∧
        other.source.qualified document.ns = group.source.qualified document.ns) ↔
      group.source.kind = Reference.versionedDatasetKind ∧ document.Shadows := by
  obtain ⟨inside, rfl⟩ := List.getElem?_eq_some_iff.mp present
  have apart := List.pairwise_iff_getElem.mp (@target_apart document now lineage)
  have unlike : Reference.datasourceKind ≠ Reference.versionedDatasetKind := by decide
  constructor
  · rintro ⟨earlier, other, low, found, same⟩
    obtain ⟨within, rfl⟩ := List.getElem?_eq_some_iff.mp found
    obtain ⟨declared, inherited⟩ := apart earlier i within inside low same
    refine ⟨inherited, ?_⟩
    have isLineage : ∀ source, (document.reconcile now lineage).target.files[i].source ≠
        FileTree.declaredReference source := by
      intro source equal
      rw [equal] at inherited
      exact unlike inherited
    rcases source_of_mem_target (List.getElem_mem inside) with ⟨source, equal, -⟩ | own
    · exact absurd equal (isLineage source)
    rcases source_of_mem_target (List.getElem_mem within) with ⟨source, equal, group, member, of⟩ |
      other
    · refine ⟨group, member, ?_⟩
      rw [of, ← own, ← same, equal]
      rfl
    · rw [other] at declared
      exact absurd declared.symm unlike
  · rintro ⟨inherited, own, listed, same⟩
    obtain ⟨paths, found⟩ := FileTree.get?_declaredPaths_iff.mpr ⟨own, listed, rfl⟩
    have declared : (⟨FileTree.declaredReference (own.source.qualified document.ns),
        FileTree.fresh paths⟩ : SourceFiles) ∈ document.declaredTree lineage :=
      List.mem_append_left _ (List.mem_map.mpr ⟨_, OrderedMap.mem_toList_iff.mpr found, rfl⟩)
    obtain ⟨other, member, source, -⟩ := @mem_target_of_declared document now lineage _ declared
    obtain ⟨position, within, rfl⟩ := List.mem_iff_getElem.mp member
    have isLineage : (document.reconcile now lineage).target.files[i].source =
        document.lineageReference := by
      rcases source_of_mem_target (List.getElem_mem inside) with ⟨_, equal, -⟩ | own
      · rw [equal] at inherited
        exact absurd inherited unlike
      · exact own
    have equal : (document.reconcile now lineage).target.files[position].source.qualified
        document.ns = (document.reconcile now lineage).target.files[i].source.qualified
          document.ns := by
      rw [source, isLineage, ← same]
      rfl
    refine ⟨position, _, ?_, List.getElem?_eq_getElem within, equal⟩
    rcases Nat.lt_trichotomy position i with low | rfl | high
    · exact low
    · rw [source] at inherited
      exact absurd inherited unlike
    · have first := (apart i position inside within high equal.symm).1
      rw [inherited] at first
      exact absurd first.symm unlike

end Document

end DatasetSync
