import DatasetSync.Proofs.FileTree.Target
import DatasetSync.Sync.Run

/-!
# What completions do to a tree

A completion moves the one file that it finds, and only if that file is being processed. So
sources and paths stay as they are whatever comes. If every file is found under its source and
its path, a file that is being processed is settled by the first completion for it, and all
later ones, and all completions for other files, leave it alone.
-/

namespace DatasetSync

/-- The file after a copy of it has come to its end. -/
def FileRecord.settle (file : FileRecord) (now : Timestamp) :
    Except StorageError Unit → FileRecord
  | .ok () => { file with phase := .succeeded, lastUpdateTime := some now, errorMessage := "" }
  | .error error => { file with phase := .failed, errorMessage := error.message }

/-- A file keeps its path when it is settled. -/
@[simp] theorem FileRecord.path_settle (file : FileRecord) (now : Timestamp)
    (result : Except StorageError Unit) : (file.settle now result).path = file.path := by
  cases result <;> rfl

/-- A settled file is not being processed any more, whether its copy ended well or not. -/
theorem FileRecord.phase_settle_ne (file : FileRecord) (now : Timestamp)
    (result : Except StorageError Unit) : (file.settle now result).phase ≠ .processing := by
  cases result <;> simp [settle]

/-- Only a file that is being processed comes to its end: from no other phase does a step lead to
success or to failure. -/
theorem Phase.canBecome_settled_iff {phase after : Phase}
    (settled : after = .succeeded ∨ after = .failed) :
    phase.canBecome after = true ↔ phase = .processing := by
  rcases settled with rfl | rfl <;> cases phase <;> simp [canBecome]

namespace FileTree

variable {tree tree' : FileTree} {source : Reference} {owner : QualifiedName} {path : String}
  {i j : Nat} {group : SourceFiles} {file : FileRecord} {now : Timestamp}

/-- A tree lists a file of a source, at a position in the group at a position. -/
def Places (tree : FileTree) (i j : Nat) (source : Reference) (file : FileRecord) : Prop :=
  ∃ group, tree[i]? = some group ∧ group.source = source ∧ group.files[j]? = some file

/-- Every file of a tree stands somewhere in it, under the reference of its group. -/
theorem places_of_mem (member : group ∈ tree) (inGroup : file ∈ group.files) :
    ∃ i j, tree.Places i j group.source file := by
  obtain ⟨i, present⟩ := List.mem_iff_getElem?.mp member
  obtain ⟨j, listed⟩ := List.mem_iff_getElem?.mp inGroup
  exact ⟨i, j, group, present, rfl, listed⟩

/-- A file that stands somewhere in a tree is one of its files. -/
theorem Places.mem_allFiles (places : tree.Places i j source file) : file ∈ tree.allFiles := by
  obtain ⟨group, present, -, listed⟩ := places
  exact List.mem_flatMap.mpr ⟨group, List.mem_of_getElem? present, List.mem_of_getElem? listed⟩

/-- In one position stands one file, under one reference. -/
theorem Places.unique {source' : Reference} {file' : FileRecord} (places : tree.Places i j source file)
    (places' : tree.Places i j source' file') : source = source' ∧ file = file' := by
  obtain ⟨group, present, rfl, listed⟩ := places
  obtain ⟨group', present', rfl, listed'⟩ := places'
  obtain rfl : group = group' := Option.some.inj (present.symm.trans present')
  exact ⟨rfl, Option.some.inj (listed.symm.trans listed')⟩

/-- A tree with the same sources and paths has such a group in the same position. -/
theorem group_of_outline (same : tree.outline = tree'.outline) (present : tree[i]? = some group) :
    ∃ group', tree'[i]? = some group' ∧ group'.source = group.source ∧
      group'.files.map FileRecord.path = group.files.map FileRecord.path := by
  have groups : (tree'[i]?).map (fun group => (group.source, group.files.map FileRecord.path)) =
      some (group.source, group.files.map FileRecord.path) := by
    have entry := congrArg (fun entries => entries[i]?) same
    simpa [outline, present] using entry.symm
  obtain ⟨group', present', entries⟩ := Option.map_eq_some_iff.mp groups
  exact ⟨group', present', Prod.mk.inj entries⟩

/-- A group with the same paths has a file in the same position, with the path that is there. -/
theorem file_of_paths {files files' : List FileRecord}
    (same : files'.map FileRecord.path = files.map FileRecord.path) (listed : files[j]? = some file) :
    ∃ file', files'[j]? = some file' := by
  have paths : (files'[j]?).map FileRecord.path = some file.path := by
    have entry := congrArg (fun paths => paths[j]?) same
    simpa [listed] using entry
  obtain ⟨file', listed', -⟩ := Option.map_eq_some_iff.mp paths
  exact ⟨file', listed'⟩

/-- A tree with the same sources and paths has a file in the same position, under the same
reference. -/
theorem Places.of_outline (same : tree.outline = tree'.outline)
    (places : tree.Places i j source file) : ∃ file', tree'.Places i j source file' := by
  obtain ⟨group, present, rfl, listed⟩ := places
  obtain ⟨group', present', source, paths⟩ := group_of_outline same present
  obtain ⟨file', listed'⟩ := file_of_paths paths listed
  exact ⟨file', group', present', source, listed'⟩

/-- The tree with another file at a position in a group. -/
def put (tree : FileTree) (i : Nat) (group : SourceFiles) (j : Nat) (file : FileRecord) :
    FileTree :=
  tree.set i { group with files := group.files.set j file }

/-- A file that is put into a tree is listed at its position, under the reference of the group that
was there. -/
theorem places_put_self {new : FileRecord} (present : tree[i]? = some group)
    (listed : group.files[j]? = some file) : (tree.put i group j new).Places i j group.source new := by
  obtain ⟨inside, -⟩ := List.getElem?_eq_some_iff.mp present
  obtain ⟨inGroup, -⟩ := List.getElem?_eq_some_iff.mp listed
  exact ⟨_, List.getElem?_set_self inside, rfl, List.getElem?_set_self inGroup⟩

/-- A file that is put into a tree leaves the files at all other positions, those of the same group
and those of other groups. -/
theorem Places.put_ne {i' j' : Nat} {new : FileRecord} (present : tree[i]? = some group)
    (elsewhere : ¬ (i' = i ∧ j' = j)) (places : tree.Places i' j' source file) :
    (tree.put i group j new).Places i' j' source file := by
  obtain ⟨inside, -⟩ := List.getElem?_eq_some_iff.mp present
  obtain ⟨group', present', named, listed⟩ := places
  by_cases same : i' = i
  · subst same
    obtain rfl : group = group' := Option.some.inj (present.symm.trans present')
    refine ⟨_, List.getElem?_set_self inside, named, ?_⟩
    rw [List.getElem?_set_ne (by simpa using Ne.symm (by simpa using elsewhere))]
    exact listed
  · exact ⟨group', (List.getElem?_set_ne (Ne.symm same)).trans present', named, listed⟩

/-- A file that is put in the place of one with its path changes no source and no path. -/
theorem outline_put {new : FileRecord} (present : tree[i]? = some group)
    (listed : group.files[j]? = some file) (same : new.path = file.path) :
    (tree.put i group j new).outline = tree.outline := by
  obtain ⟨inside, rfl⟩ := List.getElem?_eq_some_iff.mp present
  obtain ⟨inGroup, rfl⟩ := List.getElem?_eq_some_iff.mp listed
  unfold outline put
  have paths : (tree[i].files.set j new).map FileRecord.path =
      tree[i].files.map FileRecord.path := by
    rw [List.map_set, same, ← List.getElem_map FileRecord.path, List.set_getElem_self]
    simpa using inGroup
  rw [List.map_set]
  simp only [paths]
  rw [← List.getElem_map (fun group : SourceFiles => (group.source, group.files.map _)),
    List.set_getElem_self]
  simpa using inside

/-- How many files of a tree are being processed. -/
def pending (tree : FileTree) : Nat := tree.allFiles.countP (·.phase = .processing)

/-- Where a file that is not being processed takes the place of one that is, fewer are. -/
theorem pending_put {new : FileRecord} (present : tree[i]? = some group)
    (listed : group.files[j]? = some file) (processing : file.phase = .processing)
    (settled : new.phase ≠ .processing) : (tree.put i group j new).pending < tree.pending := by
  obtain ⟨inside, rfl⟩ := List.getElem?_eq_some_iff.mp present
  obtain ⟨inGroup, rfl⟩ := List.getElem?_eq_some_iff.mp listed
  have fewer : (tree[i].files.set j new).countP (·.phase = .processing) <
      tree[i].files.countP (·.phase = .processing) := by
    have some : 0 < tree[i].files.countP (·.phase = .processing) := List.countP_pos_iff.mpr
      ⟨tree[i].files[j], List.getElem_mem inGroup, decide_eq_true processing⟩
    rw [List.countP_set inGroup]
    simp only [processing, settled, decide_true, decide_false, if_true, Bool.false_eq_true,
      if_false]
    omega
  unfold pending allFiles put
  have split : tree = tree.take i ++ tree[i] :: tree.drop (i + 1) := by simp
  rw [List.set_eq_take_append_cons_drop, if_pos inside]
  conv_rhs => rw [split]
  simp only [List.flatMap_append, List.flatMap_cons, List.countP_append]
  omega

/-- How a step of a file ends well: it is found, and it may take the step. -/
theorem advance_eq_ok_iff {phase : Phase} {message : String} {after : FileTree} :
    tree.advance now owner path phase message = .ok after ↔
      ∃ i j group file, tree.Finds owner path i j ∧ tree[i]? = some group ∧
        group.files[j]? = some file ∧ file.phase.canBecome phase = true ∧
        after = tree.put i group j (file.enter now phase message) := by
  unfold advance
  constructor
  · intro taken
    split at taken
    · cases taken
    · rename_i i group found
      obtain ⟨position, search, present⟩ := Option.bind_eq_some_iff.mp found
      obtain ⟨other, at', same⟩ := Option.map_eq_some_iff.mp present
      cases same
      split at taken
      · cases taken
      · rename_i j file found'
        obtain ⟨position', search', present'⟩ := Option.bind_eq_some_iff.mp found'
        obtain ⟨other', at'', same'⟩ := Option.map_eq_some_iff.mp present'
        cases same'
        split at taken
        · rename_i allowed
          cases taken
          exact ⟨i, j, group, file, ⟨search, group, at', search'⟩, at', at'', allowed, rfl⟩
        · cases taken
  · rintro ⟨i, j, group, file, ⟨search, other, present', search'⟩, present, listed, allowed, rfl⟩
    obtain rfl : group = other := Option.some.inj (present.symm.trans present')
    simp [search, present, search', listed, allowed, put]

/-- A look-up ends in one place: both its search for the source and its search for the path are
functions. -/
theorem Finds.unique {i' j' : Nat} (finds : tree.Finds owner path i j)
    (finds' : tree.Finds owner path i' j') : i = i' ∧ j = j' := by
  obtain ⟨search, group, present, inGroup⟩ := finds
  obtain ⟨search', group', present', inGroup'⟩ := finds'
  obtain rfl : i = i' := Option.some.inj (search.symm.trans search')
  obtain rfl : group = group' := Option.some.inj (present.symm.trans present')
  exact ⟨rfl, Option.some.inj (inGroup.symm.trans inGroup')⟩

/-- Every file of a tree is found under its source and its path. -/
structure Addressable (tree : FileTree) : Prop where
  inOrder : tree.InOrder
  apart : tree.Pairwise fun first second =>
    first.source.qualified "" ≠ second.source.qualified ""

/-- In a tree of which every file is found, a look-up finds the file of its source and path. -/
theorem Addressable.finds_iff (addressable : tree.Addressable)
    (places : tree.Places i j source file) :
    tree.Finds owner path i j ↔ source.qualified "" = owner ∧ file.path = path := by
  obtain ⟨group, present, rfl, listed⟩ := places
  rw [FileTree.finds_iff addressable.inOrder present listed]
  refine ⟨fun found => ⟨found.1, found.2.1⟩, fun found => ⟨found.1, found.2, ?_⟩⟩
  intro earlier other low present' same
  obtain ⟨inside, rfl⟩ := List.getElem?_eq_some_iff.mp present
  obtain ⟨inside', rfl⟩ := List.getElem?_eq_some_iff.mp present'
  exact List.pairwise_iff_getElem.mp addressable.apart earlier i inside' inside low
    (same.trans found.1.symm)

/-- In a tree of which every file is found, two files of one source and one path are the same. -/
theorem Addressable.same {i' j' : Nat} {source' : Reference} {file' : FileRecord}
    (addressable : tree.Addressable) (places : tree.Places i j source file)
    (places' : tree.Places i' j' source' file')
    (owner : source.qualified "" = source'.qualified "") (path : file.path = file'.path) :
    file = file' := by
  have finds : tree.Finds (source'.qualified "") file'.path i j :=
    (addressable.finds_iff places).mpr ⟨owner, path⟩
  have finds' : tree.Finds (source'.qualified "") file'.path i' j' :=
    (addressable.finds_iff places').mpr ⟨rfl, rfl⟩
  obtain ⟨rfl, rfl⟩ := finds.unique finds'
  obtain ⟨group, present, -, listed⟩ := places
  obtain ⟨group', present', -, listed'⟩ := places'
  obtain rfl : group = group' := Option.some.inj (present.symm.trans present')
  exact Option.some.inj (listed.symm.trans listed')

/-- Whether a tree stands in order depends on its sources and paths only. -/
theorem InOrder.of_outline (inOrder : tree.InOrder) (same : tree'.outline = tree.outline) :
    tree'.InOrder := by
  have sources : tree'.map SourceFiles.source = tree.map SourceFiles.source := by
    simpa [outline, Function.comp_def] using congrArg (List.map Prod.fst) same
  have paths : tree'.map (fun group => group.files.map FileRecord.path) =
      tree.map fun group => group.files.map FileRecord.path := by
    simpa [outline, Function.comp_def] using congrArg (List.map Prod.snd) same
  refine ⟨?_, ?_⟩
  · have byName : (tree.map SourceFiles.source).Pairwise fun first second =>
        first.name ≤ second.name := List.pairwise_map.mpr inOrder.byName
    rw [← sources, List.pairwise_map] at byName
    exact byName
  · intro group member
    have listed : group.files.map FileRecord.path ∈
        tree.map fun group => group.files.map FileRecord.path := by
      rw [← paths]
      exact List.mem_map_of_mem member
    obtain ⟨former, member', equal⟩ := List.mem_map.mp listed
    have byPath : (former.files.map FileRecord.path).Pairwise fun first second =>
        compare first second = .lt := List.pairwise_map.mpr (inOrder.byPath former member')
    rw [equal, List.pairwise_map] at byPath
    exact byPath

/-- Whether every file of a tree is found depends on its sources and paths only. So it holds after
every completion if it holds at the start. -/
theorem Addressable.of_outline (addressable : tree.Addressable)
    (same : tree'.outline = tree.outline) : tree'.Addressable := by
  have sources : tree'.map SourceFiles.source = tree.map SourceFiles.source := by
    simpa [outline, Function.comp_def] using congrArg (List.map Prod.fst) same
  refine ⟨addressable.inOrder.of_outline same, ?_⟩
  have apart : (tree.map SourceFiles.source).Pairwise fun first second =>
      first.qualified "" ≠ second.qualified "" := List.pairwise_map.mpr addressable.apart
  rw [← sources, List.pairwise_map] at apart
  exact apart

end FileTree

namespace SyncPlan

open FileTree

variable {tree : FileTree} {dataset : String} {now : Timestamp} {job : SyncJob}
  {result : Except StorageError Unit} {i j : Nat} {source : Reference} {file : FileRecord}

/-- What the completion of a copy does to a tree: it settles the file that the look-up ends at, if
that file is being processed, and nothing else. Both ends of a copy are one step of the file, to the
one phase or to the other, and no file that has come to an end can make either. -/
theorem record_cases (copies : job.removes = false) :
    (∃ i j group file, tree.Finds job.owner (job.logicalPath dataset) i j ∧
        tree[i]? = some group ∧ group.files[j]? = some file ∧ file.phase = .processing ∧
        record tree dataset now job result = tree.put i group j (file.settle now result)) ∨
      (record tree dataset now job result = tree ∧
        ∀ i j source file, tree.Finds job.owner (job.logicalPath dataset) i j →
          tree.Places i j source file → file.phase ≠ .processing) := by
  obtain ⟨phase, message, settled, settles, same⟩ : ∃ phase message,
      (phase = .succeeded ∨ phase = .failed) ∧
      (∀ file : FileRecord, file.enter now phase message = file.settle now result) ∧
      record tree dataset now job result =
        (tree.advance now job.owner (job.logicalPath dataset) phase message).toOption.getD
          tree := by
    unfold record
    rw [copies]
    cases result with
    | ok =>
      refine ⟨.succeeded, "", .inl rfl, fun file => rfl, ?_⟩
      dsimp only
      cases tree.advance now job.owner (job.logicalPath dataset) .succeeded "" <;> rfl
    | error error =>
      refine ⟨.failed, error.message, .inr rfl, fun file => rfl, ?_⟩
      dsimp only
      cases tree.advance now job.owner (job.logicalPath dataset) .failed error.message <;> rfl
  cases taken : tree.advance now job.owner (job.logicalPath dataset) phase message with
  | ok advanced =>
    rw [taken] at same
    obtain ⟨i, j, group, file, finds, present, listed, allowed, rfl⟩ :=
      advance_eq_ok_iff.mp taken
    exact .inl ⟨i, j, group, file, finds, present, listed,
      (Phase.canBecome_settled_iff settled).mp allowed, settles file ▸ same⟩
  | error error =>
    rw [taken] at same
    refine .inr ⟨same, ?_⟩
    rintro i j source file finds ⟨group, present, -, listed⟩ processing
    have ended : tree.advance now job.owner (job.logicalPath dataset) phase message =
        .ok (tree.put i group j (file.enter now phase message)) :=
      advance_eq_ok_iff.mpr ⟨i, j, group, file, finds, present, listed,
        (Phase.canBecome_settled_iff settled).mpr processing, rfl⟩
    rw [taken] at ended
    cases ended

/-- A removal changes nothing in a tree: its completions are not recorded, however they end. -/
theorem record_removes (removes : job.removes = true) :
    record tree dataset now job result = tree := by
  simp [record, removes]

/-- A completion changes no source and no path. It may replace one file by another of the same
path. -/
theorem outline_record : (record tree dataset now job result).outline = tree.outline := by
  cases removes : job.removes with
  | true => rw [record_removes removes]
  | false =>
    rcases @record_cases tree dataset now job result removes with
      ⟨i, j, group, file, -, present, listed, -, same⟩ | ⟨same, -⟩
    · rw [same]
      exact outline_put present listed (file.path_settle now result)
    · rw [same]

/-- The completion of a copy is for a file of a source. -/
def Completes (dataset : String) (job : SyncJob) (source : Reference) (file : FileRecord) : Prop :=
  job.removes = false ∧ job.owner = source.qualified "" ∧ job.logicalPath dataset = file.path

/-- A completion that is for another file leaves a file alone, and so does any completion if
the file is not being processed. -/
theorem places_record_of_not (addressable : tree.Addressable) (places : tree.Places i j source file)
    (other : Completes dataset job source file → file.phase ≠ .processing) :
    (record tree dataset now job result).Places i j source file := by
  cases removes : job.removes with
  | true =>
    rw [record_removes removes]
    exact places
  | false =>
    rcases @record_cases tree dataset now job result removes with
      ⟨i', j', group, file', finds, present, listed, processing, same⟩ | ⟨same, -⟩
    · rw [same]
      refine places.put_ne present ?_
      rintro ⟨rfl, rfl⟩
      obtain ⟨group', present', named, listed'⟩ := places
      obtain rfl : group = group' := Option.some.inj (present.symm.trans present')
      obtain rfl : file = file' := Option.some.inj (listed'.symm.trans listed)
      obtain ⟨own, path⟩ := (addressable.finds_iff ⟨group, present, named, listed⟩).mp finds
      exact other ⟨removes, own.symm, path.symm⟩ processing
    · rw [same]
      exact places

/-- A completion settles the file that it is for, if that file is being processed. That the tree is
addressable is used here: the look-up ends at this file and at no other one. -/
theorem places_record (addressable : tree.Addressable) (places : tree.Places i j source file)
    (own : Completes dataset job source file) (processing : file.phase = .processing) :
    (record tree dataset now job result).Places i j source (file.settle now result) := by
  obtain ⟨copies, owner, path⟩ := own
  have finds : tree.Finds job.owner (job.logicalPath dataset) i j :=
    (addressable.finds_iff places).mpr ⟨owner.symm, path.symm⟩
  rcases @record_cases tree dataset now job result copies with
    ⟨i', j', group, file', finds', present, listed, -, same⟩ | ⟨-, none⟩
  · obtain ⟨rfl, rfl⟩ := finds.unique finds'
    obtain ⟨group', present', rfl, listed'⟩ := places
    obtain rfl : group = group' := Option.some.inj (present.symm.trans present')
    obtain rfl : file = file' := Option.some.inj (listed'.symm.trans listed)
    rw [same]
    exact places_put_self present listed
  · exact absurd processing (none i j source file finds places)

/-- A completion as it is received: a job, its result, and the time. -/
structure Completion where
  job : SyncJob
  result : Except StorageError Unit
  now : Timestamp

/-- The tree after a list of completions, of which the first came first. -/
def recordAll (dataset : String) (completions : List Completion) (tree : FileTree) : FileTree :=
  completions.foldl (fun tree completion =>
    record tree dataset completion.now completion.job completion.result) tree

/-- Completions take effect in turn, each on the tree that the ones before have left. -/
theorem recordAll_append (first rest : List Completion) (tree : FileTree) :
    recordAll dataset (first ++ rest) tree =
      recordAll dataset rest (recordAll dataset first tree) :=
  List.foldl_append

/-- Completions change no source and no path, however many there are. -/
theorem outline_recordAll (completions : List Completion) (tree : FileTree) :
    (recordAll dataset completions tree).outline = tree.outline := by
  induction completions generalizing tree with
  | nil => rfl
  | cons completion completions ih => exact (ih _).trans outline_record

/-- Completions for other files leave a file alone, and so do any completions if the file is
not being processed. -/
theorem places_recordAll_of_not {completions : List Completion} (addressable : tree.Addressable)
    (places : tree.Places i j source file)
    (other : ∀ completion ∈ completions,
      Completes dataset completion.job source file → file.phase ≠ .processing) :
    (recordAll dataset completions tree).Places i j source file := by
  induction completions generalizing tree with
  | nil => exact places
  | cons completion completions ih =>
    refine ih (addressable.of_outline outline_record) ?_ fun later member =>
      other later (List.mem_cons_of_mem _ member)
    exact places_record_of_not addressable places (other completion List.mem_cons_self)

/-- A file that is being processed is settled by the first completion for it. Those before it are
for other files and leave this one, and those after it find it settled and do nothing to it. -/
theorem places_recordAll {first rest : List Completion} {completion : Completion}
    (addressable : tree.Addressable) (places : tree.Places i j source file)
    (processing : file.phase = .processing)
    (own : Completes dataset completion.job source file)
    (before : ∀ earlier ∈ first, ¬ Completes dataset earlier.job source file) :
    (recordAll dataset (first ++ completion :: rest) tree).Places i j source
      (file.settle completion.now completion.result) := by
  have stays : (recordAll dataset first tree).Places i j source file :=
    places_recordAll_of_not addressable places fun earlier member completes =>
      absurd completes (before earlier member)
  have kept : (recordAll dataset first tree).Addressable :=
    addressable.of_outline (outline_recordAll first tree)
  rw [recordAll_append]
  change (recordAll dataset rest (record (recordAll dataset first tree) dataset completion.now
    completion.job completion.result)).Places i j source _
  exact places_recordAll_of_not (kept.of_outline outline_record)
    (places_record kept stays own processing) fun _ _ _ => file.phase_settle_ne _ _

/-- A file that a completion leaves settled was settled before, or its copy has ended well: the
completion names its path, and the source of a group with the source of the file. -/
theorem settled_record (inOrder : tree.InOrder) {fallback : String} {owner : QualifiedName}
    (records : (record tree dataset now job result).Records fallback owner file)
    (settled : file.phase.isSettled = true) :
    (∃ former, tree.Records fallback owner former ∧ former.path = file.path ∧
        former.phase.isSettled = true) ∨
      (result = .ok () ∧ job.logicalPath dataset = file.path ∧
        ∃ group ∈ tree, group.source.qualified fallback = owner ∧
          group.source.qualified "" = job.owner) := by
  cases removes : job.removes with
  | true =>
    rw [record_removes removes] at records
    exact .inl ⟨file, records, rfl, settled⟩
  | false =>
    rcases @record_cases tree dataset now job result removes with
      ⟨i, j, group, former, finds, present, listed, -, same⟩ | ⟨same, -⟩
    · rw [same] at records
      obtain ⟨own, path, -⟩ := (FileTree.finds_iff inOrder present listed).mp finds
      have member := List.mem_of_getElem? present
      obtain ⟨group', among, named, inGroup⟩ := records
      rcases List.mem_or_eq_of_mem_set among with other | rfl
      · exact .inl ⟨file, ⟨group', other, named, inGroup⟩, rfl, settled⟩
      · rcases List.mem_or_eq_of_mem_set inGroup with other | rfl
        · exact .inl ⟨file, ⟨group, member, named, other⟩, rfl, settled⟩
        · refine .inr ⟨?_, ?_, group, member, named, own⟩
          · cases result with
            | ok => rfl
            | error error => cases settled
          · rw [FileRecord.path_settle, path]
    · rw [same] at records
      exact .inl ⟨file, records, rfl, settled⟩

/-- A file that completions leave settled was settled before, or one of them was of a copy that has
ended well, and names the path of the file and the source of a group with its source. That group has
its source in the tree from the start, as completions change no source. -/
theorem settled_recordAll {completions : List Completion} (inOrder : tree.InOrder)
    {fallback : String} {owner : QualifiedName}
    (records : (recordAll dataset completions tree).Records fallback owner file)
    (settled : file.phase.isSettled = true) :
    (∃ former, tree.Records fallback owner former ∧ former.path = file.path ∧
        former.phase.isSettled = true) ∨
      ∃ completion ∈ completions, completion.result = .ok () ∧
        completion.job.logicalPath dataset = file.path ∧
        ∃ group ∈ tree, group.source.qualified fallback = owner ∧
          group.source.qualified "" = completion.job.owner := by
  induction completions generalizing tree with
  | nil => exact .inl ⟨file, records, rfl, settled⟩
  | cons completion completions ih =>
    rcases ih (inOrder.of_outline outline_record) records with
      ⟨former, records', path, settled'⟩ | ⟨later, member, ok, path, group, among, named, own⟩
    · rcases settled_record inOrder records' settled' with
        ⟨first, earlier, same, done⟩ | ⟨ok, same, found⟩
      · exact .inl ⟨first, earlier, same.trans path, done⟩
      · exact .inr ⟨completion, List.mem_cons_self, ok, same.trans path, found⟩
    · obtain ⟨i, present⟩ := List.mem_iff_getElem?.mp among
      obtain ⟨group', present', source, -⟩ := group_of_outline outline_record present
      refine .inr ⟨later, List.mem_cons_of_mem _ member, ok, path, group',
        List.mem_of_getElem? present', ?_, ?_⟩
      · rw [source, named]
      · rw [source, own]

/-- A completion leaves the tree as it was, or fewer files are being processed. This bounds how
often a run can have something new to write. -/
theorem pending_record : record tree dataset now job result = tree ∨
    (record tree dataset now job result).pending < tree.pending := by
  cases removes : job.removes with
  | true => exact .inl (record_removes removes)
  | false =>
    rcases @record_cases tree dataset now job result removes with
      ⟨i, j, group, file, -, present, listed, processing, same⟩ | ⟨same, -⟩
    · rw [same]
      exact .inr (pending_put present listed processing (file.phase_settle_ne now result))
    · exact .inl same

/-- Completions leave the tree as it was, or fewer files are being processed. -/
theorem pending_recordAll (completions : List Completion) (tree : FileTree) :
    recordAll dataset completions tree = tree ∨
      (recordAll dataset completions tree).pending < tree.pending := by
  induction completions generalizing tree with
  | nil => exact .inl rfl
  | cons completion completions ih =>
    have later := ih (record tree dataset completion.now completion.job completion.result)
    change recordAll dataset completions (record _ _ _ _ _) = tree ∨
      (recordAll dataset completions (record _ _ _ _ _)).pending < tree.pending
    rcases @pending_record tree dataset completion.now completion.job completion.result with
      same | fewer
    · rw [same] at later ⊢
      exact later
    · rcases later with same | still
      · rw [same]
        exact .inr fewer
      · exact .inr (still.trans fewer)

end SyncPlan

end DatasetSync
