import DatasetSync.Proofs.Controller.Copying
import DatasetSync.Proofs.FileTree.Aligned
import DatasetSync.Proofs.Sync.Removal

/-!
# The first copy of a version

A version of which nothing is recorded is copied for the first time. If the copy ends with the
version ready, there is an object at the place of every file that is declared or inherited, and
no other place has gained one.

An inherited file is listed by what follows the prefix of the parent version in its key, and it
is copied from that key. Its place in the version leaves out one slash in front of the path. So
the version takes over all paths of its parent that do not start with a slash. An object whose
path does is put where the path without the slash belongs; if the parent has an object there as
well, the two are merged into one, and both files are reported as copied.

Nothing is said about a parent version without a name, which counts as none.
-/

namespace DatasetSync

/-- A program of calls can be carried out while the clock stands still. -/
theorem performs_perform {α : Type} (program : Calling α) (before : Backends) :
    Performs program before (program.perform Backends.answer before).1
      (program.perform Backends.answer before).2 := by
  induction program generalizing before with
  | done value => exact .done value before before.now
  | ask call next ih => exact .ask before.now (ih _ _)

namespace Document

open SyncPlan

variable {document version : Document} {now : Timestamp} {lineage : List String}
  {sizing : Pool.Sizing} {start before after : Backends}
  {outcome : Except SyncError RunOutcome} {place : ObjectAddress}

/-- If nothing is recorded, all files of a target have just been entered. -/
theorem blank_of_mem_target (fresh : document.status = none) {file : FileRecord}
    (listed : file ∈ (document.reconcile now lineage).target.files.allFiles) :
    file = .blank file.path .processing := by
  rcases mem_target listed with new | former
  · exact new
  · simp [Document.files, fresh, FileTree.allFiles] at former

/-- A version is copied for the first time: its parent is listed, the comparison makes a target of
what is declared and listed, and the copy of that target ends with its status stored, by which the
version is ready. -/
inductive FirstCopied (document : Document) (sizing : Pool.Sizing) (start : Backends) :
    List String → Backends → Prop
  | copied {before after : Backends} {lineage : List String} {now : Timestamp}
      {outcome : Except SyncError RunOutcome} {version : Document}
      (listed : Performs document.listLineage start (.ok lineage) before)
      (runs : (document.targetCopy now lineage sizing).Runs before outcome after)
      (stored : IsStored outcome) (found : after.documents.get? document.key = some version)
      (ready : version.statusOrInitial.IsReady) : FirstCopied document sizing start lineage after

/-- A first copy whose runs are driven is a first copy. So what is computed by driving a run is a
case of the general law. -/
theorem firstCopied_of_drive {listing : Except StorageError (List String) × Backends}
    {driven : Except SyncError RunOutcome × Backends}
    (listed : document.listLineage.perform Backends.answer start = listing)
    (came : listing.1 = .ok lineage)
    (drives : (document.targetCopy now lineage sizing).drive alone false listing.2 = driven)
    (stored : IsStored driven.1)
    (ready : (driven.2.documents.get? document.key).any
      (fun version => decide version.statusOrInitial.IsReady) = true) :
    document.FirstCopied sizing start lineage driven.2 := by
  subst listed drives
  cases found : ((document.targetCopy now lineage sizing).drive alone false
      (document.listLineage.perform Backends.answer start).2).2.documents.get? document.key with
  | none => simp [found] at ready
  | some version =>
    exact .copied (came ▸ performs_perform document.listLineage start) (runs_drive _ _) stored
      found (by simpa [found] using ready)

/-- After a first copy, the places of all files of its target are filled, and no others have
been. -/
theorem FirstCopied.holds_iff (fresh : document.status = none) (plain : document.HasPlainSources)
    (copied : document.FirstCopied sizing start lineage after) :
    after.objects.Holds place ↔ start.objects.Holds place ∨
      ∃ source path, (document.declaredTree lineage).Lists document.ns source path ∧
        document.place path = place := by
  obtain @⟨before, _, _, now, outcome, version, listed, runs, stored, found, ready⟩ := copied
  obtain ⟨-, -, alike⟩ := listed.listed
  obtain ⟨-, gains, keeps⟩ := runs.effect
  rw [← alike.holds_iff]
  constructor
  · intro held
    rcases gains place held with former | ⟨-, group, member, file, inGroup, rfl⟩
    · exact .inl former
    · have listed : (document.reconcile now lineage).target.files.Lists document.ns
          (group.source.qualified document.ns) file.path :=
        ⟨file, ⟨group, member, rfl, inGroup⟩, rfl⟩
      exact .inr ⟨_, _, lists_target_iff.mp listed, rfl⟩
  · rintro (former | ⟨source, path, listed, rfl⟩)
    · exact keeps rfl place former
    · obtain ⟨file, ⟨group, member, -, inGroup⟩, rfl⟩ :=
        (@lists_target_iff document now lineage source path).mpr listed
      have among : file ∈ (document.reconcile now lineage).target.files.allFiles :=
        List.mem_flatMap.mpr ⟨group, member, inGroup⟩
      have formed : FileTree.WellFormed (Document.files { document with
          status := some (document.reconcile now lineage).target }) := plain.wellFormed_target
      rcases runs.settled_or_held formed stored found ready among with settled | held
      · rw [blank_of_mem_target fresh among] at settled
        cases settled
      · exact held

/-- After a first copy of a version that declares nothing itself, the places of the inherited
files are filled, and no others have been. -/
theorem FirstCopied.holds_inherited_iff (fresh : document.status = none)
    (ungrouped : document.spec.fileGroups = [])
    (copied : document.FirstCopied sizing start lineage after) :
    after.objects.Holds place ↔ start.objects.Holds place ∨
      ∃ path, document.Inherits start.objects path ∧ document.place path = place := by
  have plain : document.HasPlainSources := by simp [HasPlainSources, ungrouped]
  have nothing : ∀ source path, ¬ document.Declares source path := by
    simp [Declares, ungrouped]
  have came : document.lineageIn start.objects = .ok lineage := by
    obtain ⟨listed, -⟩ := copied
    exact listed.listed.1.symm
  rw [copied.holds_iff fresh plain]
  refine or_congr_right ?_
  simp only [lists_declaredTree_iff, nothing, false_or, mem_lineageIn_iff came]
  constructor
  · rintro ⟨source, path, ⟨-, -, inherited⟩, same⟩
    exact ⟨path, inherited, same⟩
  · rintro ⟨path, inherited, same⟩
    obtain ⟨-, parent, named, -⟩ := id inherited
    exact ⟨_, path, ⟨by rw [named]; rfl, rfl, inherited⟩, same⟩

/-- The object of a version of the dataset whose key is the prefix of the version and a path,
taken as it is. -/
def objectOf (document : Document) (version path : String) : ObjectAddress :=
  ⟨document.datasetNs, Layout.versionPrefix document.datasetName version ++ path⟩

/-- The document's version has an object of every path of which the parent has one. -/
def TakesOver (document : Document) (parent : String) (objects : ObjectStore) : Prop :=
  ∀ path, path ≠ "" → objects.Holds (document.objectOf parent path) →
    objects.Holds (document.objectOf document.spec.version path)

/-- A version starts from a parent version, of another name, and declares nothing itself. Nothing is
recorded of it, and neither name has a slash. -/
structure IsPureHeir (document : Document) (parent : String) : Prop where
  fresh : document.status = none
  ungrouped : document.spec.fileGroups = []
  inherits : document.spec.inheritedFrom = some parent
  named : parent ≠ ""
  other : document.spec.version ≠ parent
  flat : '/' ∉ document.spec.version.toList
  flat' : '/' ∉ parent.toList

/-- After a first copy of a version that declares nothing itself, the parent has the objects that
it had, and the version has gained those of the parent, each of them under its path without a
leading slash. The version has taken all paths over exactly if each path with a leading slash was
there before, or comes of a path with one slash more. -/
theorem takesOver_iff {parent : String} (heir : document.IsPureHeir parent)
    (copied : document.FirstCopied sizing start lineage after) :
    (∀ path, after.objects.Holds (document.objectOf parent path) ↔
        start.objects.Holds (document.objectOf parent path)) ∧
      (∀ path, after.objects.Holds (document.objectOf document.spec.version path) ↔
        start.objects.Holds (document.objectOf document.spec.version path) ∨
          ∃ origin, origin ≠ "" ∧ start.objects.Holds (document.objectOf parent origin) ∧
            Layout.relative origin = path) ∧
      (document.TakesOver parent after.objects ↔
        ∀ path, start.objects.Holds (document.objectOf parent ("/" ++ path)) →
          start.objects.Holds (document.objectOf document.spec.version ("/" ++ path)) ∨
            start.objects.Holds (document.objectOf parent ("/" ++ ("/" ++ path)))) := by
  have parent? : document.spec.parent? = some parent := by
    simp [Spec.parent?, heir.inherits, Option.filter, heir.named]
  have inherited : ∀ path, document.Inherits start.objects path ↔
      path ≠ "" ∧ start.objects.Holds (document.objectOf parent path) := by
    intro path
    simp [Inherits, parent?, objectOf]
  have holds := fun place =>
    @FirstCopied.holds_inherited_iff document lineage sizing start after place heir.fresh
      heir.ungrouped copied
  have places : ∀ origin path,
      document.place origin = document.objectOf document.spec.version path ↔
        Layout.relative origin = path := by
    intro origin path
    simp [Document.place, objectOf, Layout.objectKey]
  have ofParent : ∀ path, after.objects.Holds (document.objectOf parent path) ↔
      start.objects.Holds (document.objectOf parent path) := by
    intro path
    rw [holds, or_iff_left]
    rintro ⟨origin, -, same⟩
    exact heir.other
      (Layout.versionPrefix_append_inj heir.flat heir.flat' (congrArg ObjectAddress.key same)).1
  have ofVersion : ∀ path, after.objects.Holds (document.objectOf document.spec.version path) ↔
      start.objects.Holds (document.objectOf document.spec.version path) ∨
        ∃ origin, origin ≠ "" ∧ start.objects.Holds (document.objectOf parent origin) ∧
          Layout.relative origin = path := by
    intro path
    simp only [holds, inherited, places, and_assoc]
  refine ⟨ofParent, ofVersion, fun takesOver path held => ?_, fun slashed path some held => ?_⟩
  · have some : "/" ++ path ≠ "" := by simp
    rcases (ofVersion _).mp (takesOver _ some ((ofParent _).mpr held)) with former |
      ⟨origin, -, came, same⟩
    · exact .inl former
    · rcases Layout.relative_eq_iff.mp same with rfl | ⟨-, plain⟩
      · exact .inr came
      · exact absurd rfl (plain path)
  · rw [ofParent] at held
    refine (ofVersion path).mpr ?_
    by_cases leading : ∃ tail, path = "/" ++ tail
    · obtain ⟨tail, rfl⟩ := leading
      refine (slashed tail held).imp_right fun longer => ?_
      exact ⟨_, by simp, longer, Layout.relative_slash _⟩
    · exact .inr ⟨path, some, held,
        Layout.relative_eq_iff.mpr (.inr ⟨rfl, fun tail same => leading ⟨tail, same⟩⟩)⟩

/-- A version that starts from version v1 of its dataset and declares nothing itself. -/
def pureHeir : Document :=
  { metadata := { Metadata.empty with
      name := some "ds-v2", ns := some "team-a", resourceVersion := some "1" }
    spec := { dataset := { apiGroup := none, kind := "Dataset", name := "ds", ns := none }
              version := "v2", inheritedFrom := some "v1", fileGroups := [], released := false }
    status := none }

/-- The version of the examples declares nothing itself, inherits from one parent, and has no status
yet. -/
theorem pureHeir_isPureHeir : pureHeir.IsPureHeir "v1" where
  fresh := rfl
  ungrouped := rfl
  inherits := rfl
  named := by decide
  other := by decide
  flat := by decide
  flat' := by decide

/-- The heir is stored, the bucket of its dataset has some keys, and nothing is refused. -/
def heritage (keys : List String) : Backends :=
  { objects := keys.foldl (fun store key => store.putObject "team-a" key) .empty
    documents := (DocumentStore.empty.insert pureHeir).2
    table := .empty
    now := "2024-05-01T00:00:00+00:00" }

/-- What the heir's listing of its parent comes to, and what is there after it. -/
def heirListing (keys : List String) : Except StorageError (List String) × Backends :=
  pureHeir.listLineage.perform Backends.answer (heritage keys)

/-- The copy of what was listed, carried out among nobody else. -/
def heirCopy (lineage keys : List String) : Except SyncError RunOutcome × Backends :=
  (pureHeir.targetCopy "2024-05-01T00:00:00+00:00" lineage .standard).drive alone false
    (heirListing keys).2

/-- A path of the parent without a leading slash is taken over, also one in a folder. -/
theorem takesOver_nested : ∃ after, pureHeir.IsPureHeir "v1" ∧
    pureHeir.FirstCopied .standard (heritage ["dataset/ds/v1/dir/x.txt"]) ["dir/x.txt"] after ∧
    pureHeir.TakesOver "v1" after.objects := by
  have copied := @firstCopied_of_drive pureHeir "2024-05-01T00:00:00+00:00" ["dir/x.txt"]
    .standard (heritage ["dataset/ds/v1/dir/x.txt"]) _
    (heirCopy ["dir/x.txt"] ["dataset/ds/v1/dir/x.txt"]) rfl rfl rfl (.inr ⟨true, rfl⟩) rfl
  refine ⟨_, pureHeir_isPureHeir, copied,
    (takesOver_iff pureHeir_isPureHeir copied).2.2.mpr fun path held => ?_⟩
  obtain ⟨keys, found, member⟩ := ObjectStore.holds_iff.mp held
  cases found
  have single := List.mem_singleton.mp member
  have letters := congrArg String.toList single
  simp [Layout.versionPrefix, objectOf, pureHeir, datasetName] at letters

/-- Of two paths of the parent that differ by a leading slash, only one is taken over, though the
version is ready. -/
theorem slashed_path_merges : ∃ lineage after,
    pureHeir.IsPureHeir "v1" ∧
    pureHeir.FirstCopied .standard (heritage ["dataset/ds/v1//x.txt", "dataset/ds/v1/x.txt"])
      lineage after ∧
    ¬ pureHeir.TakesOver "v1" after.objects := by
  have copied := @firstCopied_of_drive pureHeir "2024-05-01T00:00:00+00:00" ["/x.txt", "x.txt"]
    .standard (heritage ["dataset/ds/v1//x.txt", "dataset/ds/v1/x.txt"]) _
    (heirCopy ["/x.txt", "x.txt"] ["dataset/ds/v1//x.txt", "dataset/ds/v1/x.txt"])
    rfl rfl rfl (.inr ⟨true, rfl⟩) rfl
  refine ⟨_, _, pureHeir_isPureHeir, copied, fun takesOver => ?_⟩
  have lost : (heirCopy ["/x.txt", "x.txt"]
      ["dataset/ds/v1//x.txt", "dataset/ds/v1/x.txt"]).2.objects.holds "team-a"
        "dataset/ds/v2//x.txt" = false := rfl
  exact Bool.false_ne_true (lost.symm.trans (takesOver "/x.txt" (by decide) rfl))

end Document

end DatasetSync
