import DatasetSync.Proofs.FileTree.Aligned
import DatasetSync.Proofs.FileTree.Record

/-!
# Files that have come to an end

A file is entered as one that is being processed, and its copy ends well or badly, once. Two
things are done to a tree of files. Completions move files from the one state to the other, and a
comparison makes a new tree that takes the records over. Both leave a file alone that has come to
an end, as long as nothing is listed twice; and they list nothing twice that was not, unless a
declared source bears the name of the inherited one.
-/

namespace DatasetSync

namespace FileRecord

/-- The file is being processed, or its copy has ended well or badly. -/
def IsTracked (file : FileRecord) : Prop :=
  file.phase = .processing ∨ file.phase = .succeeded ∨ file.phase = .failed

/-- What may become of a file: all of its record stays as it is, or it was being processed and its
copy has ended well or badly. -/
def Becomes (file file' : FileRecord) : Prop :=
  file' = file ∨
    (file.phase = .processing ∧ (file'.phase = .succeeded ∨ file'.phase = .failed))

variable {file file' file'' : FileRecord}

/-- A file may stay as it is. -/
@[refl] theorem Becomes.refl (file : FileRecord) : file.Becomes file := .inl rfl

/-- A file that is not being processed stays as it is: to become something else it would have to be
settled. -/
theorem Becomes.eq (becomes : file.Becomes file') (ended : file.phase ≠ .processing) :
    file' = file := by
  rcases becomes with same | ⟨processing, -⟩
  · exact same
  · exact absurd processing ended

/-- Becoming is transitive. Once a file was settled nothing more happens to it, so that there is at
most one change on the way. -/
theorem Becomes.trans (first : file.Becomes file') (second : file'.Becomes file'') :
    file.Becomes file'' := by
  rcases first with rfl | ⟨processing, ended⟩
  · exact second
  · have stays : file'' = file' := second.eq (by rcases ended with ended | ended <;> simp [ended])
    rw [stays]
    exact .inr ⟨processing, ended⟩

/-- A tracked file stays tracked. -/
theorem Becomes.isTracked (becomes : file.Becomes file') (tracked : file.IsTracked) :
    file'.IsTracked := by
  rcases becomes with rfl | ⟨-, ended⟩
  · exact tracked
  · exact .inr ended

/-- A file that is being processed may be settled, at any time and with any result. -/
theorem becomes_settle (processing : file.phase = .processing) (now : Timestamp)
    (result : Except StorageError Unit) : file.Becomes (file.settle now result) := by
  refine .inr ⟨processing, ?_⟩
  cases result with
  | ok => exact .inl rfl
  | error error => exact .inr rfl

end FileRecord

namespace FileTree

variable {fallback : String} {tree tree' tree'' : FileTree} {source : QualifiedName}
  {reference reference' : Reference} {file file' : FileRecord} {i j : Nat} {path : String}

/-- A tree lists nothing twice, and all its files are tracked. -/
structure Orderly (fallback : String) (tree : FileTree) : Prop where
  once : (entries fallback tree).Nodup
  tracked : ∀ source file, tree.Records fallback source file → file.IsTracked

/-- A tree without files is orderly. -/
theorem orderly_nil (fallback : String) : Orderly fallback [] where
  once := List.nodup_nil
  tracked _ _ records := absurd records records_nil_iff

/-- An orderly tree has one record for a source and a path. So one may speak of the file with this
source and path. -/
theorem Orderly.unique (orderly : tree.Orderly fallback) (records : tree.Records fallback source file)
    (records' : tree.Records fallback source file') (same : file'.path = file.path) :
    file' = file :=
  Records.unique orderly.once records' records same

/-- From one tree to another the sources and paths are the same, and in each position stands what
may have become of the file there. -/
structure Advances (tree tree' : FileTree) : Prop where
  outline : tree'.outline = tree.outline
  becomes : ∀ i j reference file reference' file', tree.Places i j reference file →
    tree'.Places i j reference' file' → file.Becomes file'

/-- A file that is listed under a source stands somewhere in the group of that source. -/
theorem Records.places (records : tree.Records fallback source file) :
    ∃ i j reference, tree.Places i j reference file ∧ reference.qualified fallback = source := by
  obtain ⟨group, member, own, inGroup⟩ := records
  obtain ⟨i, j, places⟩ := places_of_mem member inGroup
  exact ⟨i, j, group.source, places, own⟩

/-- A file that stands somewhere in a tree is recorded under the full name of its reference. -/
theorem Places.records (places : tree.Places i j reference file) :
    tree.Records fallback (reference.qualified fallback) file := by
  obtain ⟨group, present, rfl, listed⟩ := places
  exact ⟨group, List.mem_of_getElem? present, rfl, List.mem_of_getElem? listed⟩

/-- Trees with the same sources and paths have files with the same source and path in the same
position. -/
theorem Places.same_path (same : tree'.outline = tree.outline)
    (places : tree.Places i j reference file) (places' : tree'.Places i j reference' file') :
    reference' = reference ∧ file'.path = file.path := by
  obtain ⟨group, present, rfl, listed⟩ := places
  obtain ⟨group', present', rfl, listed'⟩ := places'
  obtain ⟨other, found, source, paths⟩ := group_of_outline same present'
  obtain rfl : group = other := Option.some.inj (present.symm.trans found)
  have equal := congrArg (fun paths => paths[j]?) paths
  simp only [List.getElem?_map, listed, listed', Option.map_some, Option.some.injEq] at equal
  exact ⟨source.symm, equal.symm⟩

namespace Advances

/-- A tree may stay as it is. -/
theorem refl (tree : FileTree) : tree.Advances tree where
  outline := rfl
  becomes _ _ _ _ _ _ places places' := by
    obtain ⟨-, rfl⟩ := places.unique places'
    exact .refl _

/-- A tree may advance in several steps. Between them each of its files becomes what it becomes. -/
theorem trans (first : tree.Advances tree') (second : tree'.Advances tree'') :
    tree.Advances tree'' where
  outline := second.outline.trans first.outline
  becomes i j reference file reference' file' places places' := by
    obtain ⟨middle, between⟩ := places.of_outline first.outline.symm
    exact (first.becomes i j _ _ _ _ places between).trans
      (second.becomes i j _ _ _ _ between places')

/-- What has become of a file is listed where the file was, under the same source and the same
path. -/
theorem records (advances : tree.Advances tree') (records : tree.Records fallback source file) :
    ∃ file', tree'.Records fallback source file' ∧ file'.path = file.path ∧ file.Becomes file' := by
  obtain ⟨i, j, reference, places, own⟩ := records.places
  obtain ⟨file', places'⟩ := places.of_outline advances.outline.symm
  obtain ⟨-, path⟩ := places.same_path advances.outline places'
  exact ⟨file', own ▸ places'.records, path, advances.becomes i j _ _ _ _ places places'⟩

/-- An orderly tree stays orderly while its files advance, because neither sources nor paths
change. -/
theorem orderly (advances : tree.Advances tree') (orderly : tree.Orderly fallback) :
    tree'.Orderly fallback where
  once := by
    rw [entries_eq_outline, advances.outline, ← entries_eq_outline]
    exact orderly.once
  tracked source file' records' := by
    obtain ⟨i, j, reference, places', -⟩ := records'.places
    obtain ⟨file, places⟩ := places'.of_outline advances.outline
    exact (advances.becomes i j _ _ _ _ places places').isTracked
      (orderly.tracked _ file places.records)

end Advances

/-- An orderly tree that records what may have become of a file. -/
structure Follows (fallback : String) (tree : FileTree) (source : QualifiedName)
    (file : FileRecord) : Prop where
  orderly : tree.Orderly fallback
  becomes : ∃ file', tree.Records fallback source file' ∧ file'.path = file.path ∧
    file.Becomes file'

/-- What has become of the file is the one record of its source and path. There is one, since the
file is followed, and no other one, since an orderly tree lists nothing twice. -/
theorem Follows.exists_unique (follows : tree.Follows fallback source file) :
    ∃ file', file.Becomes file' ∧ ∀ other,
      tree.Records fallback source other ∧ other.path = file.path ↔ other = file' := by
  obtain ⟨file', records, path, becomes⟩ := follows.becomes
  refine ⟨file', becomes, fun other => ⟨?_, ?_⟩⟩
  · rintro ⟨records', path'⟩
    exact follows.orderly.unique records records' (path'.trans path.symm)
  · rintro rfl
    exact ⟨records, path⟩

/-- A file that has come to its end is followed by itself alone: whatever is recorded under its
source and path is this very record. -/
theorem Follows.eq (follows : tree.Follows fallback source file)
    (ended : file.phase ≠ .processing) (records : tree.Records fallback source file')
    (path : file'.path = file.path) : file' = file := by
  obtain ⟨same, becomes, single⟩ := follows.exists_unique
  rw [(single file').mp ⟨records, path⟩]
  exact becomes.eq ended

/-- A tree that has advanced still follows the file, as becoming is transitive. -/
theorem Follows.advances (follows : tree.Follows fallback source file)
    (advances : tree.Advances tree') : tree'.Follows fallback source file := by
  obtain ⟨former, records, path, becomes⟩ := follows.becomes
  obtain ⟨later, records', path', becomes'⟩ := advances.records records
  exact ⟨advances.orderly follows.orderly, later, records', path'.trans path,
    becomes.trans becomes'⟩

/-- Each path of some files that is recorded takes its record. If the path comes twice, its first
file takes the record, so that the record is taken anyhow. -/
theorem mem_adopt_of_recorded {known : OrderedMap String FileRecord} {files : List FileRecord}
    (recorded : known.get? path = some file) (listed : ∃ own ∈ files, own.path = path) :
    file ∈ (adopt known files).files := by
  induction files generalizing known with
  | nil => simp at listed
  | cons first files ih =>
    obtain ⟨own, member, named⟩ := listed
    rw [adopt]
    by_cases same : first.path = path
    · rw [same, recorded]
      exact List.mem_cons_self
    have later : ∃ own ∈ files, own.path = path := by
      rcases List.mem_cons.mp member with rfl | later
      · exact absurd named same
      · exact ⟨own, later, named⟩
    split
    · refine List.mem_cons_of_mem _ (ih ?_ later)
      rw [OrderedMap.get?_erase, if_neg same]
      exact recorded
    · exact List.mem_cons_of_mem _ (ih recorded later)

/-- Each file of a target that is recorded takes its record. The induction is on the groups; a group
of another source leaves the record for a later one. -/
theorem merge_records_of_recorded {known : Recorded} {tree : FileTree}
    (recorded : known.record? source path = some file) (listed : tree.Lists fallback source path) :
    (merge fallback known tree).tree.Records fallback source file := by
  induction tree generalizing known with
  | nil =>
    obtain ⟨other, records, -⟩ := listed
    exact absurd records records_nil_iff
  | cons group tree ih =>
    obtain ⟨⟨reference, files⟩, present, found⟩ := Option.bind_eq_some_iff.mp recorded
    rw [lists_cons_iff] at listed
    rw [merge]
    by_cases inGroup : group.source.qualified fallback = source ∧ ∃ own ∈ group.files, own.path = path
    · obtain ⟨rfl, listed'⟩ := inGroup
      rw [present]
      exact records_cons_iff.mpr (.inl ⟨rfl, mem_adopt_of_recorded found listed'⟩)
    have later : Lists fallback tree source path := listed.resolve_left inGroup
    split
    · exact records_cons_iff.mpr (.inr (ih recorded later))
    · rename_i reference' files' present'
      refine records_cons_iff.mpr (.inr (ih ?_ later))
      rw [record?_insert]
      by_cases own : group.source.qualified fallback = source
      · subst own
        obtain ⟨-, rfl⟩ := Prod.mk.inj (Option.some.inj (present.symm.trans present'))
        rw [if_pos rfl, adopt_rest_iff]
        exact ⟨found, fun other member same => inGroup ⟨rfl, other, member, same⟩⟩
      · rw [if_neg own]
        exact recorded

end FileTree

namespace SyncPlan

open FileTree

variable {tree : FileTree} {dataset : String} {now : Timestamp} {job : SyncJob}
  {result : Except StorageError Unit}

/-- A completion settles one file, or changes nothing: where the file of the job is not found or has
come to its end, the tree is left as it is. -/
theorem advances_record : tree.Advances (record tree dataset now job result) := by
  by_cases removes : job.removes = true
  · rw [record_removes removes]
    exact .refl tree
  rcases @record_cases tree dataset now job result (by simpa using removes) with
    ⟨i, j, group, file, -, present, listed, processing, same⟩ | ⟨same, -⟩
  · refine ⟨outline_record, ?_⟩
    intro i' j' reference former reference' later places places'
    rw [same] at places'
    by_cases here : i' = i ∧ j' = j
    · obtain ⟨rfl, rfl⟩ := here
      obtain ⟨-, rfl⟩ := places.unique ⟨group, present, rfl, listed⟩
      obtain ⟨-, rfl⟩ := places'.unique (places_put_self present listed)
      exact former.becomes_settle processing now result
    · obtain ⟨-, rfl⟩ := places'.unique (places.put_ne present here)
      exact .refl _
  · rw [same]
    exact .refl tree

/-- Completions settle files and do nothing else, in whatever order they come and however many there
are. -/
theorem advances_recordAll (completions : List Completion) (tree : FileTree) :
    tree.Advances (recordAll dataset completions tree) := by
  induction completions generalizing tree with
  | nil => exact .refl tree
  | cons completion completions ih => exact advances_record.trans (ih _)

end SyncPlan

namespace Document

open FileTree

variable {document : Document} {now : Timestamp} {lineage : List String} {source : QualifiedName}
  {file : FileRecord}

/-- Where no declared source bears the name of the inherited one, nothing is doubled. -/
theorem not_doubles (plain : ¬ document.Shadows) : ¬ document.Doubles lineage := by
  rintro ⟨-, path, -, group, member, same, -⟩
  exact plain ⟨group, member, same⟩

/-- Where no declared source bears the name of the inherited one, a target lists nothing twice. -/
theorem nodup_entries_target (plain : ¬ document.Shadows) :
    (entries document.ns (document.reconcile now lineage).target.files).Nodup := by
  rw [entries_eq_outline, outline_target, ← entries_eq_outline]
  refine ((Ordered.sortOn_perm _ _).flatMap_right _).nodup_iff.mpr ?_
  exact nodup_entries_iff.mpr (not_doubles plain)

/-- The target of an orderly status is orderly, unless a declared source bears the name of the
inherited one. -/
theorem orderly_target (plain : ¬ document.Shadows) (orderly : document.files.Orderly document.ns) :
    (document.reconcile now lineage).target.files.Orderly document.ns where
  once := nodup_entries_target plain
  tracked source file records := by
    obtain ⟨-, blank | recorded⟩ := entered_or_recorded records
    · rw [blank]
      exact .inl rfl
    · exact orderly.tracked source file (records_of_record? recorded).1

/-- What an orderly status records is in the target, as it is recorded, if the target lists it. -/
theorem follows_target (plain : ¬ document.Shadows)
    (follows : document.files.Follows document.ns source file)
    (listed : (document.reconcile now lineage).target.files.Lists document.ns source file.path) :
    (document.reconcile now lineage).target.files.Follows document.ns source file := by
  obtain ⟨former, records, path, becomes⟩ := follows.becomes
  refine ⟨orderly_target plain follows.orderly, former, ?_, path, becomes⟩
  obtain ⟨record, found⟩ := record?_of_lists ⟨former, records, path⟩
  obtain ⟨recorded, same⟩ := records_of_record? found
  obtain rfl := follows.orderly.unique records recorded (same.trans path.symm)
  obtain ⟨group, member, own, inGroup⟩ :=
    @merge_records_of_recorded document.ns source record file.path document.recorded
      (document.declaredTree lineage) found (lists_target_iff.mp listed)
  rw [target_files]
  exact ⟨group, (Ordered.sortOn_perm _ _).mem_iff.mpr member, own, inGroup⟩

end Document

end DatasetSync
