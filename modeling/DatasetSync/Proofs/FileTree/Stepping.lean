import DatasetSync.Proofs.FileTree.Find

/-!
# Steps of a single file, found by going through the tree

A step looks its file up by halving. In a tree that stands in order it comes to the same as going
through the groups, and then through the files, from the first one on: `Takes` describes the step in
this way, case by case, without a search. A tree in order may have several groups of one source; the
first one counts, even if the file is only in a later one.

A step is taken in place. One that is refused leaves the whole tree as it was, and one that is not
changes a single file.
-/

namespace DatasetSync

/-- A group is that of a source. A group without a namespace is in the empty one. -/
def SourceFiles.Serves (group : SourceFiles) (source : QualifiedName) : Prop :=
  group.source.name = source.name ∧ group.source.ns.getD "" = source.ns

/-- A group serves a source exactly if the source is the one that its reference names where a
missing namespace is the empty one. -/
theorem SourceFiles.serves_iff {group : SourceFiles} {source : QualifiedName} :
    group.Serves source ↔ group.source.qualified "" = source := by
  obtain ⟨ns, name⟩ := source
  simp only [Serves, Reference.qualified, Reference.nsOr, QualifiedName.mk.injEq]
  exact and_comm

/-- A record after its file has entered a phase. A sync that ended well has a new time and no error,
one that ended badly has the error that is given, and everything else is kept. -/
structure FileRecord.Enters (file : FileRecord) (now : Timestamp) (next : Phase)
    (message : String) (after : FileRecord) : Prop where
  path : after.path = file.path
  checksum : after.checksum = file.checksum
  phase : after.phase = next
  time : after.lastUpdateTime = if next = .succeeded then some now else file.lastUpdateTime
  error : after.errorMessage =
    if next = .succeeded then "" else if next = .failed then message else file.errorMessage

/-- What a file becomes that enters a phase, described field by field, is what the program makes of
it. -/
theorem FileRecord.enters_iff {file after : FileRecord} {now : Timestamp} {phase : Phase}
    {message : String} :
    file.Enters now phase message after ↔ after = file.enter now phase message := by
  constructor
  · rintro ⟨path, checksum, entered, time, error⟩
    obtain ⟨path', phase', checksum', time', error'⟩ := after
    cases phase <;> simp_all [enter]
  · rintro rfl
    cases phase <;> exact ⟨rfl, rfl, rfl, rfl, rfl⟩

namespace FileTree

variable {tree after : FileTree} {now : Timestamp} {source : QualifiedName} {path : String}
  {phase : Phase} {message : String} {refusal? : Option TransitionError}

/-- A step that is taken in place: why it was refused, if it was, and the tree after it. -/
def takeStep (tree : FileTree) (now : Timestamp) (source : QualifiedName) (path : String)
    (phase : Phase) (message : String) : Option TransitionError × FileTree :=
  match tree.advance now source path phase message with
  | .ok after => (none, after)
  | .error refusal => (some refusal, tree)

/-- A step by going through the tree: why it is refused, if it is, and the tree after it. -/
inductive Takes (now : Timestamp) (source : QualifiedName) (path : String) (phase : Phase)
    (message : String) : FileTree → Option TransitionError → FileTree → Prop
  /-- No group is that of the source. -/
  | sourceMissing {tree : FileTree} (absent : ∀ group ∈ tree, ¬ group.Serves source) :
      Takes now source path phase message tree (some (.sourceNotFound source)) tree
  /-- The first group of the source does not have the path. -/
  | pathMissing {before after : FileTree} {group : SourceFiles}
      (first : ∀ earlier ∈ before, ¬ earlier.Serves source) (own : group.Serves source)
      (absent : ∀ file ∈ group.files, file.path ≠ path) :
      Takes now source path phase message (before ++ group :: after)
        (some (.pathNotFound source.name path)) (before ++ group :: after)
  /-- The file may not enter the phase. -/
  | forbidden {before after : FileTree} {group : SourceFiles} {file : FileRecord}
      (first : ∀ earlier ∈ before, ¬ earlier.Serves source) (own : group.Serves source)
      (listed : file ∈ group.files) (named : file.path = path)
      (forbidden : file.phase.canBecome phase = false) :
      Takes now source path phase message (before ++ group :: after)
        (some (.illegal source.name path file.phase phase)) (before ++ group :: after)
  /-- The file enters the phase, and no other one changes. -/
  | entered {before after : FileTree} {reference : Reference} {front rest : List FileRecord}
      {file new : FileRecord} (first : ∀ earlier ∈ before, ¬ earlier.Serves source)
      (own : SourceFiles.Serves ⟨reference, front ++ file :: rest⟩ source)
      (named : file.path = path) (allowed : file.phase.canBecome phase = true)
      (enters : file.Enters now phase message new) :
      Takes now source path phase message (before ++ ⟨reference, front ++ file :: rest⟩ :: after)
        none (before ++ ⟨reference, front ++ new :: rest⟩ :: after)

/-! ### Where the searches end -/

/-- The search for a source that has no group finds none, in a tree in order. The bisection by name
may find groups of the name; none of them is in the namespace. -/
theorem findSource?_of_absent (inOrder : tree.InOrder)
    (absent : ∀ group ∈ tree, ¬ group.Serves source) : tree.findSource? source = none := by
  rw [findSource?_eq_findIdx? inOrder.byName, List.findIdx?_eq_none_iff]
  intro group member
  simpa [SourceFiles.serves_iff] using absent group member

/-- The search for a source ends at its first group, in a tree in order. Groups of that name and
other namespaces may stand in front of it. -/
theorem findSource?_of_first {before rest : FileTree} {group : SourceFiles}
    (inOrder : InOrder (before ++ group :: rest))
    (first : ∀ earlier ∈ before, ¬ earlier.Serves source) (own : group.Serves source) :
    findSource? (before ++ group :: rest) source = some before.length := by
  have skipped : before.findIdx? (·.source.qualified "" = source) = none := by
    rw [List.findIdx?_eq_none_iff]
    intro earlier member
    simpa [SourceFiles.serves_iff] using first earlier member
  rw [findSource?_eq_findIdx? inOrder.byName, List.findIdx?_append, skipped, List.findIdx?_cons]
  simp [SourceFiles.serves_iff.mp own]

/-- The search for a path that no file has finds none. The files need not stand in order. -/
theorem findPath?_of_absent {files : List FileRecord} (absent : ∀ file ∈ files, file.path ≠ path) :
    findPath? files path = none := by
  cases found : findPath? files path with
  | none => rfl
  | some position =>
    obtain ⟨file, present, same⟩ := Ordered.eq_of_bisect? found
    exact absurd (Std.LawfulEqOrd.eq_of_compare same) (absent file (List.mem_of_getElem? present))

/-- The search for the path of a file ends at the file. The paths are strictly increasing, so that
the bisection can only end there. -/
theorem findPath?_of_listed {front rest : List FileRecord} {file : FileRecord}
    (increasing : (front ++ file :: rest).Pairwise fun first second =>
      compare first.path second.path = .lt) :
    findPath? (front ++ file :: rest) file.path = some front.length := by
  obtain ⟨-, behind, before⟩ := List.pairwise_append.mp increasing
  obtain ⟨behind, -⟩ := List.pairwise_cons.mp behind
  refine Ordered.bisect?_eq_some (by simp) Std.ReflCmp.compare_self ?_ ?_
  · intro lower other low found
    rw [List.getElem?_append_left low] at found
    exact before other (List.mem_of_getElem? found) file List.mem_cons_self
  · intro upper other high found
    rw [List.getElem?_append_right (by omega), List.getElem?_cons, if_neg (by omega)] at found
    exact Std.OrientedCmp.gt_iff_lt.mpr (behind other (List.mem_of_getElem? found))

/-! ### The step -/

/-- In a tree in order the step is taken as described. The description goes through all groups
and files one by one, and the program searches by halves: both come to the same group and the
same file. -/
theorem takeStep_of_takes (inOrder : tree.InOrder)
    (takes : Takes now source path phase message tree refusal? after) :
    tree.takeStep now source path phase message = (refusal?, after) := by
  unfold takeStep advance
  cases takes with
  | sourceMissing absent => simp [findSource?_of_absent inOrder absent]
  | pathMissing first own absent =>
    simp [findSource?_of_first inOrder first own, findPath?_of_absent absent]
  | forbidden first own listed named forbidden =>
    subst named
    rename_i before after group file
    obtain ⟨front, rest, split⟩ := List.append_of_mem listed
    have increasing := inOrder.byPath group (by simp)
    rw [split] at increasing
    have search := findPath?_of_listed increasing
    rw [← split] at search
    have present : group.files[front.length]? = some file := by simp [split]
    simp [findSource?_of_first inOrder first own, search, present, forbidden]
  | entered first own named allowed enters =>
    subst named
    rename_i before after reference front rest file new
    have increasing := inOrder.byPath ⟨reference, front ++ file :: rest⟩ (by simp)
    rw [FileRecord.enters_iff] at enters
    simp [findSource?_of_first inOrder first own, findPath?_of_listed increasing, allowed, enters]

/-- There always is a way through a tree: every group serves the source or does not, every file has
the path or does not, and the phases of the file allow the step or do not. -/
theorem exists_takes (tree : FileTree) (now : Timestamp) (source : QualifiedName) (path : String)
    (phase : Phase) (message : String) :
    ∃ refusal? after, Takes now source path phase message tree refusal? after := by
  classical
  cases found : tree.find? (fun group => decide (group.Serves source)) with
  | none => exact ⟨_, _, .sourceMissing (by simpa using found)⟩
  | some group =>
    obtain ⟨own, before, rest, rfl, first⟩ := List.find?_eq_some_iff_append.mp found
    have own : group.Serves source := by simpa using own
    have first : ∀ earlier ∈ before, ¬ earlier.Serves source := by simpa using first
    by_cases listed : ∃ file ∈ group.files, file.path = path
    · obtain ⟨file, listed, named⟩ := listed
      cases allowed : file.phase.canBecome phase with
      | false => exact ⟨_, _, .forbidden first own listed named allowed⟩
      | true =>
        obtain ⟨reference, files⟩ := group
        obtain ⟨front, behind, rfl⟩ := List.append_of_mem listed
        exact ⟨_, _, .entered first own named allowed (FileRecord.enters_iff.mpr rfl)⟩
    · exact ⟨_, _, .pathMissing first own fun file member named => listed ⟨file, member, named⟩⟩

/-- In a tree in order a step comes to what going through the tree comes to: whether it is refused,
for which reason, and to which tree it leads. -/
theorem takeStep_iff_takes (inOrder : tree.InOrder) (now : Timestamp) (source : QualifiedName)
    (path : String) (phase : Phase) (message : String) (refusal? : Option TransitionError)
    (after : FileTree) :
    tree.takeStep now source path phase message = (refusal?, after) ↔
      Takes now source path phase message tree refusal? after := by
  refine ⟨fun taken => ?_, takeStep_of_takes inOrder⟩
  obtain ⟨reached?, reached, takes⟩ := exists_takes tree now source path phase message
  obtain ⟨rfl, rfl⟩ := Prod.mk.inj ((takeStep_of_takes inOrder takes).symm.trans taken)
  exact takes

/-- A tree with three groups of one name, two of which are those of one source. -/
def namesakes : FileTree :=
  let source (ns : Option String) : Reference :=
    { apiGroup := none, kind := Reference.datasourceKind, name := "x", ns }
  [⟨source none, [.blank "a.txt" .succeeded]⟩,
    ⟨source (some "team-b"), [.blank "a.txt" .processing, .blank "b.txt" .processing]⟩,
    ⟨source (some "team-b"), [.blank "c.txt" .processing]⟩]

/-- The last file of the first group of a source takes a step, the group without a namespace refuses
one, and a file that only the second group of the source has is not found. -/
theorem namesakes_takeStep : namesakes.InOrder ∧
    Takes "2024-05-01T00:00:00Z" ⟨"team-b", "x"⟩ "b.txt" .succeeded "" namesakes none
      (namesakes.set 1 ⟨⟨none, Reference.datasourceKind, "x", some "team-b"⟩,
        [.blank "a.txt" .processing,
          ⟨"b.txt", .succeeded, "", some "2024-05-01T00:00:00Z", ""⟩]⟩) ∧
    Takes "2024-05-01T00:00:00Z" ⟨"", "x"⟩ "a.txt" .failed "gone" namesakes
      (some (.illegal "x" "a.txt" .succeeded .failed)) namesakes ∧
    Takes "2024-05-01T00:00:00Z" ⟨"team-b", "x"⟩ "c.txt" .succeeded "" namesakes
      (some (.pathNotFound "x" "c.txt")) namesakes := by
  have inOrder : namesakes.InOrder := ⟨by decide, by decide⟩
  exact ⟨inOrder, (takeStep_iff_takes inOrder ..).mp (by decide),
    (takeStep_iff_takes inOrder ..).mp (by decide), (takeStep_iff_takes inOrder ..).mp (by decide)⟩

end FileTree

end DatasetSync
