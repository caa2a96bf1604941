import DatasetSync.FileTree.Diff
import DatasetSync.Proofs.Ordered.Lookup

/-!
# What a comparison keeps and what it removes

A recorded file is known by its source and its path. The comparison of a declaration with
records keeps the records that the declaration lists and leaves over the others: what is left
over under a source and a path is what was recorded there, unless the declaration lists it.
A file of the target that is not being processed has its record from the status.
-/

namespace DatasetSync

/-- The record of a source and a path. -/
def Recorded.record? (known : Recorded) (source : QualifiedName) (path : String) :
    Option FileRecord :=
  (known.get? source).bind fun entry => entry.2.get? path

namespace FileTree

/-- A file is listed under a source. -/
def Records (fallback : String) (tree : FileTree) (source : QualifiedName) (file : FileRecord) :
    Prop :=
  ∃ group ∈ tree, group.source.qualified fallback = source ∧ file ∈ group.files

/-- A path is listed under a source. -/
def Lists (fallback : String) (tree : FileTree) (source : QualifiedName) (path : String) : Prop :=
  ∃ file, tree.Records fallback source file ∧ file.path = path

variable {fallback : String} {source : QualifiedName} {path : String} {file : FileRecord}

/-- The empty tree records nothing. -/
theorem records_nil_iff : ¬ Records fallback [] source file := by
  rintro ⟨group, member, -⟩
  simp at member

/-- What a tree records is in its first group, if that is of the source, or in one of the other
groups. Groups of one source may be apart from each other. -/
theorem records_cons_iff {group : SourceFiles} {tree : FileTree} :
    Records fallback (group :: tree) source file ↔
      (group.source.qualified fallback = source ∧ file ∈ group.files) ∨
        tree.Records fallback source file := by
  simp [Records]

/-- A path that a tree lists is the path of a file of its first group, if that is of the source, or
it is listed by the other groups. -/
theorem lists_cons_iff {group : SourceFiles} {tree : FileTree} :
    Lists fallback (group :: tree) source path ↔
      (group.source.qualified fallback = source ∧ ∃ file ∈ group.files, file.path = path) ∨
        tree.Lists fallback source path := by
  constructor
  · rintro ⟨file, records, same⟩
    rcases records_cons_iff.mp records with ⟨own, member⟩ | later
    · exact .inl ⟨own, file, member, same⟩
    · exact .inr ⟨file, later, same⟩
  · rintro (⟨own, file, member, same⟩ | ⟨file, later, same⟩)
    · exact ⟨file, records_cons_iff.mpr (.inl ⟨own, member⟩), same⟩
    · exact ⟨file, records_cons_iff.mpr (.inr later), same⟩

/-- Adoption leaves over the records of the paths that the files do not have, and no others. A
record that was taken is gone, also if the path comes again. -/
theorem adopt_rest_iff {known : OrderedMap String FileRecord} {files : List FileRecord}
    {record : FileRecord} :
    (adopt known files).rest.get? path = some record ↔
      known.get? path = some record ∧ ∀ file ∈ files, file.path ≠ path := by
  induction files generalizing known with
  | nil => simp [adopt]
  | cons file files ih =>
    rw [adopt, List.forall_mem_cons]
    split
    · rename_i existing found
      dsimp only
      rw [ih, OrderedMap.get?_erase]
      by_cases own : file.path = path <;> simp [own]
    · rename_i missing
      dsimp only
      rw [ih]
      constructor
      · rintro ⟨found, unlisted⟩
        refine ⟨found, ?_, unlisted⟩
        rintro rfl
        rw [missing] at found
        cases found
      · rintro ⟨found, -, unlisted⟩
        exact ⟨found, unlisted⟩

/-- A file after adoption is one of the files, or the record of the path of one of them. -/
theorem mem_adopt {known : OrderedMap String FileRecord} {files : List FileRecord}
    (member : file ∈ (adopt known files).files) :
    file ∈ files ∨ ∃ own ∈ files, known.get? own.path = some file := by
  induction files generalizing known with
  | nil => simp [adopt] at member
  | cons first files ih =>
    rw [adopt] at member
    split at member
    · rename_i existing found
      rcases List.mem_cons.mp member with rfl | later
      · exact .inr ⟨first, List.mem_cons_self, found⟩
      · rcases ih later with own | ⟨own, listed, found'⟩
        · exact .inl (List.mem_cons_of_mem _ own)
        · rw [OrderedMap.get?_erase] at found'
          split at found'
          · cases found'
          · exact .inr ⟨own, List.mem_cons_of_mem _ listed, found'⟩
    · rcases List.mem_cons.mp member with rfl | later
      · exact .inl List.mem_cons_self
      · rcases ih later with own | ⟨own, listed, found'⟩
        · exact .inl (List.mem_cons_of_mem _ own)
        · exact .inr ⟨own, List.mem_cons_of_mem _ listed, found'⟩

/-- The records after those of one source were replaced: this source has the new ones, and all other
sources have theirs. -/
theorem record?_insert (known : Recorded) (replaced : QualifiedName) (entry : RecordedSource) :
    Recorded.record? (known.insert replaced entry) source path =
      if replaced = source then entry.2.get? path else known.record? source path := by
  unfold Recorded.record?
  rw [OrderedMap.get?_insert]
  split <;> rfl

/-- A comparison leaves over exactly the records that the target does not list. The induction is on
the groups of the target, each of which takes its records out. -/
theorem merge_rest_iff {known : Recorded} {tree : FileTree} {record : FileRecord} :
    (merge fallback known tree).rest.record? source path = some record ↔
      known.record? source path = some record ∧ ¬ tree.Lists fallback source path := by
  induction tree generalizing known with
  | nil => simp [merge, Lists, records_nil_iff]
  | cons group tree ih =>
    rw [merge, lists_cons_iff]
    split
    · rename_i missing
      dsimp only
      rw [ih]
      constructor
      · rintro ⟨found, unlisted⟩
        refine ⟨found, ?_⟩
        rintro (⟨rfl, -⟩ | listed)
        · rw [Recorded.record?, missing] at found
          cases found
        · exact unlisted listed
      · rintro ⟨found, unlisted⟩
        exact ⟨found, fun listed => unlisted (.inr listed)⟩
    · rename_i reference files present
      dsimp only
      rw [ih, record?_insert]
      by_cases own : group.source.qualified fallback = source
      · subst own
        have former : known.record? (group.source.qualified fallback) path = files.get? path := by
          rw [Recorded.record?, present]
          rfl
        rw [if_pos rfl, adopt_rest_iff, former]
        simp only [true_and]
        constructor
        · rintro ⟨⟨found, others⟩, unlisted⟩
          refine ⟨found, ?_⟩
          rintro (⟨file, member, same⟩ | listed)
          · exact others file member same
          · exact unlisted listed
        · rintro ⟨found, unlisted⟩
          exact ⟨⟨found, fun file member same => unlisted (.inl ⟨file, member, same⟩)⟩,
            fun listed => unlisted (.inr listed)⟩
      · rw [if_neg own]
        simp [own]

/-- A file of the compared tree is one of the target, or a record that the target lists. -/
theorem merge_tree {known : Recorded} {tree : FileTree}
    (records : (merge fallback known tree).tree.Records fallback source file) :
    tree.Records fallback source file ∨
      ∃ path, tree.Lists fallback source path ∧ known.record? source path = some file := by
  induction tree generalizing known with
  | nil => exact absurd records records_nil_iff
  | cons group tree ih =>
    rw [merge] at records
    split at records
    · rcases records_cons_iff.mp records with own | later
      · exact .inl (records_cons_iff.mpr (.inl own))
      · rcases ih later with records | ⟨path, listed, found⟩
        · exact .inl (records_cons_iff.mpr (.inr records))
        · exact .inr ⟨path, lists_cons_iff.mpr (.inr listed), found⟩
    · rename_i reference files present
      rcases records_cons_iff.mp records with ⟨own, member⟩ | later
      · rcases mem_adopt member with fresh | ⟨own', listed, found⟩
        · exact .inl (records_cons_iff.mpr (.inl ⟨own, fresh⟩))
        · refine .inr ⟨own'.path, lists_cons_iff.mpr (.inl ⟨own, own', listed, rfl⟩), ?_⟩
          have same : group.source.qualified fallback = source := own
          rw [Recorded.record?, ← same, present]
          exact found
      · rcases ih later with records | ⟨path, listed, found⟩
        · exact .inl (records_cons_iff.mpr (.inr records))
        · refine .inr ⟨path, lists_cons_iff.mpr (.inr listed), ?_⟩
          rw [record?_insert] at found
          split at found
          · rename_i same
            subst same
            rw [Recorded.record?, present]
            exact (adopt_rest_iff.mp found).1
          · exact found

/-- The records of one source after a list of files: the last file of each path, and the former
record where there is none. -/
theorem get?_insertAll (files : List FileRecord) (former : OrderedMap String FileRecord) :
    (files.foldl (fun files file => files.insert file.path file) former).get? path =
      (files.reverse.find? fun file => file.path = path).or (former.get? path) := by
  induction files generalizing former with
  | nil => simp
  | cons file files ih =>
    rw [List.foldl_cons, ih, OrderedMap.get?_insert, List.reverse_cons, List.find?_append]
    by_cases same : file.path = path <;> simp [same]

/-- The records after one more group. -/
def recordGroup (fallback : String) (known : Recorded) (group : SourceFiles) : Recorded :=
  known.alter (group.source.qualified fallback) fun source =>
    let (reference, files) := source.getD (group.source, .empty)
    (reference, group.files.foldl (fun files file => files.insert file.path file) files)

/-- The records of a tree are gathered from the first group to the last, each of them over the ones
before. -/
theorem recorded_eq_foldl (tree : FileTree) :
    recorded fallback tree = tree.foldl (recordGroup fallback) .empty := rfl

/-- One more group changes the records of its own source only. Of several files of one path the last
one is recorded, and it stands over what was recorded under that path before. -/
theorem record?_recordGroup (known : Recorded) (group : SourceFiles) :
    (recordGroup fallback known group).record? source path =
      if group.source.qualified fallback = source then
        (group.files.reverse.find? fun file => file.path = path).or (known.record? source path)
      else known.record? source path := by
  rw [recordGroup, OrderedMap.alter, record?_insert]
  by_cases own : group.source.qualified fallback = source
  · subst own
    have former : (((known.get? (group.source.qualified fallback)).map Prod.snd).getD .empty).get?
        path = known.record? (group.source.qualified fallback) path := by
      rw [Recorded.record?]
      cases known.get? (group.source.qualified fallback) <;> rfl
    rw [if_pos rfl, if_pos rfl, ← former, ← get?_insertAll]
    cases known.get? (group.source.qualified fallback) <;> rfl
  · rw [if_neg own, if_neg own]

/-- The last file that a tree lists under a source and a path. -/
def lastFile? (fallback : String) (tree : FileTree) (source : QualifiedName) (path : String) :
    Option FileRecord :=
  ((tree.filter fun group => group.source.qualified fallback = source).flatMap
    SourceFiles.files).reverse.find? fun file => file.path = path

/-- The last file under a source and a path is looked for in the later groups first, and in the
first group only if no later one has it. -/
theorem lastFile?_cons (group : SourceFiles) (tree : FileTree) :
    lastFile? fallback (group :: tree) source path =
      (tree.lastFile? fallback source path).or
        (if group.source.qualified fallback = source then
          group.files.reverse.find? fun file => file.path = path
        else none) := by
  by_cases own : group.source.qualified fallback = source <;> simp [lastFile?, own]

/-- What is recorded under a source and a path is the last file that is listed there. -/
theorem record?_recorded {tree : FileTree} :
    (recorded fallback tree).record? source path = tree.lastFile? fallback source path := by
  have grown : ∀ known : Recorded,
      (tree.foldl (recordGroup fallback) known).record? source path =
        (tree.lastFile? fallback source path).or (known.record? source path) := by
    induction tree with
    | nil => exact fun known => rfl
    | cons group tree ih =>
      intro known
      rw [List.foldl_cons, ih, record?_recordGroup, lastFile?_cons]
      by_cases own : group.source.qualified fallback = source <;> simp [own, Option.or_assoc]
  rw [recorded_eq_foldl, grown]
  simp [Recorded.record?]

/-- The last file that is listed under a source and a path is listed there, and it has this path. -/
theorem records_of_lastFile? {tree : FileTree}
    (last : tree.lastFile? fallback source path = some file) :
    tree.Records fallback source file ∧ file.path = path := by
  have named : file.path = path := by simpa using List.find?_some last
  obtain ⟨group, kept, listed⟩ :=
    List.mem_flatMap.mp (List.mem_reverse.mp (List.mem_of_find?_eq_some last))
  obtain ⟨member, own⟩ := List.mem_filter.mp kept
  exact ⟨⟨group, member, by simpa using own, listed⟩, named⟩

/-- There is a last file under a source and a path exactly if one is listed there. -/
theorem isSome_lastFile?_iff {tree : FileTree} :
    (tree.lastFile? fallback source path).isSome ↔ tree.Lists fallback source path := by
  constructor
  · intro some
    obtain ⟨file, last⟩ := Option.isSome_iff_exists.mp some
    exact ⟨file, records_of_lastFile? last⟩
  · rintro ⟨file, ⟨group, member, own, listed⟩, named⟩
    refine List.find?_isSome.mpr ⟨file, List.mem_reverse.mpr ?_, by simpa using named⟩
    exact List.mem_flatMap.mpr ⟨group, List.mem_filter.mpr ⟨member, by simpa using own⟩, listed⟩

/-- A source is recorded under the reference of its first group. Later groups of this source add
files but leave the reference, whose kind may differ. -/
theorem reference_recorded {tree : FileTree} :
    ((recorded fallback tree).get? source).map Prod.fst =
      (tree.find? fun group => group.source.qualified fallback = source).map
        SourceFiles.source := by
  have grown : ∀ known : Recorded,
      ((tree.foldl (recordGroup fallback) known).get? source).map Prod.fst =
        ((known.get? source).map Prod.fst).or
          ((tree.find? fun group => group.source.qualified fallback = source).map
            SourceFiles.source) := by
    induction tree with
    | nil => simp
    | cons group tree ih =>
      intro known
      rw [List.foldl_cons, ih, recordGroup, OrderedMap.get?_alter]
      by_cases own : group.source.qualified fallback = source
      · cases former : known.get? source <;> simp [own, former]
      · simp [own]
  rw [recorded_eq_foldl, grown]
  simp

/-- A record of a tree is a file of it, under its own source and with its own path. -/
theorem records_of_record? {tree : FileTree} {record : FileRecord}
    (found : (recorded fallback tree).record? source path = some record) :
    tree.Records fallback source record ∧ record.path = path :=
  records_of_lastFile? (record?_recorded ▸ found)

/-- Every path that a tree lists has a record, which is the last file of that path. -/
theorem record?_of_lists {tree : FileTree} (listed : tree.Lists fallback source path) :
    ∃ record, (recorded fallback tree).record? source path = some record := by
  rw [record?_recorded]
  exact Option.isSome_iff_exists.mp (isSome_lastFile?_iff.mpr listed)

/-- A group of what is left over has the records of a source, and there is one. -/
theorem group_leftOver_iff {rest : Recorded} {group : SourceFiles} : group ∈ leftOver rest ↔
    ∃ source entry, rest.get? source = some entry ∧ entry.2.values ≠ [] ∧
      group = ⟨entry.1, entry.2.values⟩ := by
  have filled : ∀ files : OrderedMap String FileRecord, (!files.isEmpty) = true ↔
      files.values ≠ [] := by
    intro files
    simp [OrderedMap.isEmpty, OrderedMap.values]
  constructor
  · intro member
    obtain ⟨entry, kept, rfl⟩ := List.mem_map.mp member
    obtain ⟨among, some⟩ := List.mem_filter.mp kept
    obtain ⟨source, found⟩ := OrderedMap.mem_values_iff.mp among
    exact ⟨source, entry, found, (filled entry.2).mp some, rfl⟩
  · rintro ⟨source, entry, found, some, rfl⟩
    refine List.mem_map.mpr ⟨entry, List.mem_filter.mpr ⟨?_, (filled entry.2).mpr some⟩, rfl⟩
    exact OrderedMap.mem_values_iff.mpr ⟨source, found⟩

/-- The files that are left over are the records that are left over. A source whose records were all
taken leaves no group. -/
theorem mem_leftOver_iff {rest : Recorded} :
    (∃ group ∈ leftOver rest, file ∈ group.files) ↔
      ∃ source path, rest.record? source path = some file := by
  constructor
  · rintro ⟨group, member, listed⟩
    obtain ⟨source, entry, present, -, rfl⟩ := group_leftOver_iff.mp member
    obtain ⟨path, found⟩ := OrderedMap.mem_values_iff.mp listed
    exact ⟨source, path, by rw [Recorded.record?, present]; exact found⟩
  · rintro ⟨source, path, found⟩
    obtain ⟨entry, present, found'⟩ := Option.bind_eq_some_iff.mp found
    have listed : file ∈ entry.2.values := OrderedMap.mem_values_iff.mpr ⟨path, found'⟩
    exact ⟨⟨entry.1, entry.2.values⟩, group_leftOver_iff.mpr
      ⟨source, entry, present, List.ne_nil_of_mem listed, rfl⟩, listed⟩

end FileTree

namespace Document

/-- The tree that a document declares: its own files and those of its parent version. -/
def declaredTree (document : Document) (lineage : List String) : FileTree :=
  FileTree.declared document.ns document.spec.fileGroups
    ++ [FileTree.inherited document.ns document.spec lineage]

variable {document : Document} {now : Timestamp} {lineage : List String}
  {source : QualifiedName} {path : String} {file : FileRecord}

/-- What is recorded about the files of a document. -/
def recorded (document : Document) : Recorded := FileTree.recorded document.ns document.files

/-- A document without a status has no files, and neither has the initial status that stands in for
it. -/
theorem files_statusOrInitial (document : Document) :
    document.statusOrInitial.files = document.files := by
  unfold statusOrInitial files
  cases document.status <;> rfl

/-- The target is what the document declares, filled with what is recorded, in order. -/
theorem target_files :
    (document.reconcile now lineage).target.files = FileTree.sorted document.ns
      (FileTree.merge document.ns document.recorded (document.declaredTree lineage)).tree := by
  unfold recorded
  rw [← files_statusOrInitial]
  rfl

/-- A comparison reports a change if it met something that is not recorded. Whether something is
left over does not matter for this. -/
theorem statusChanged_eq : (document.reconcile now lineage).statusChanged =
    (FileTree.merge document.ns document.recorded (document.declaredTree lineage)).anyNew := by
  unfold recorded
  rw [← files_statusOrInitial]
  rfl

/-- The removals are what is left over of the records after the declared files have taken theirs, in
order. -/
theorem deleted_eq : (document.reconcile now lineage).deleted = FileTree.sorted document.ns
    (FileTree.leftOver
      (FileTree.merge document.ns document.recorded (document.declaredTree lineage)).rest) := by
  unfold recorded
  rw [← files_statusOrInitial]
  rfl

/-- The removals are the records that the document does not declare any more. A path that has moved
to another source is removed under the old one. -/
theorem mem_deleted_iff :
    (∃ group ∈ (document.reconcile now lineage).deleted, file ∈ group.files) ↔
      ∃ source path, document.recorded.record? source path = some file ∧
        ¬ (document.declaredTree lineage).Lists document.ns source path := by
  simp only [deleted_eq, FileTree.sorted, (Ordered.sortOn_perm _ _).mem_iff]
  rw [FileTree.mem_leftOver_iff]
  simp only [FileTree.merge_rest_iff]

/-- Nothing is known about what a document declares, except that it is to be processed: a declared
file has a path and no checksum, time or error. -/
theorem blank_of_declared
    (declared : (document.declaredTree lineage).Records document.ns source file) :
    file = .blank file.path .processing := by
  obtain ⟨group, member, -, listed⟩ := declared
  have fresh : ∀ paths : OrderedSet String,
      file ∈ FileTree.fresh paths → file = .blank file.path .processing := by
    intro paths listed
    obtain ⟨path, -, rfl⟩ := List.mem_map.mp listed
    rfl
  rcases List.mem_append.mp member with own | inherited
  · obtain ⟨⟨source, paths⟩, -, rfl⟩ := List.mem_map.mp own
    exact fresh _ listed
  · rw [List.mem_singleton.mp inherited, FileTree.inherited] at listed
    split at listed
    · exact fresh _ listed
    · simp at listed

/-- A file of the target is declared and has just been entered, or it is declared and has its
record. -/
theorem entered_or_recorded
    (records : (document.reconcile now lineage).target.files.Records document.ns source file) :
    (document.declaredTree lineage).Lists document.ns source file.path ∧
      (file = .blank file.path .processing ∨
        document.recorded.record? source file.path = some file) := by
  obtain ⟨group, member, own, listed⟩ := records
  have merged : (FileTree.merge document.ns document.recorded
      (document.declaredTree lineage)).tree.Records document.ns source file := by
    rw [target_files] at member
    exact ⟨group, (Ordered.sortOn_perm _ _).mem_iff.mp member, own, listed⟩
  rcases FileTree.merge_tree merged with declared | ⟨path, declared, found⟩
  · exact ⟨⟨file, declared, rfl⟩, .inl (blank_of_declared declared)⟩
  · obtain ⟨-, rfl⟩ := FileTree.records_of_record? found
    exact ⟨declared, .inr found⟩

/-- A file of the target is declared and about to be processed, or it is declared and has its
record. -/
theorem target_cases
    (records : (document.reconcile now lineage).target.files.Records document.ns source file) :
    (document.declaredTree lineage).Lists document.ns source file.path ∧
      (file.phase = .processing ∨ document.recorded.record? source file.path = some file) := by
  obtain ⟨declared, entered⟩ := entered_or_recorded records
  exact ⟨declared, entered.imp_left fun blank => by rw [blank]; rfl⟩

end Document

end DatasetSync
