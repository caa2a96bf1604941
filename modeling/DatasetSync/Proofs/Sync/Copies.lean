import DatasetSync.Proofs.FileTree.Record
import DatasetSync.Proofs.Pool.Delivery
import DatasetSync.Proofs.Sync.Attribution

/-!
# All jobs of a plan

A producer that is neither stopped nor gives up makes the jobs of all files of its plan, group
by group, each group with one location that the search for it came to. In a well-formed tree
each of the jobs of a copy has a source and a path of its own, which are read off it again when
it completes, and every file that is due has one.
-/

namespace DatasetSync

/-- The file is to be copied: it is being processed, and its path names an object. -/
def FileRecord.Due (file : FileRecord) : Prop :=
  file.phase = .processing ∧ Text.endsWith '/' file.path = false

/-- The form of a tree that copies rely on: sources and paths stand in order, no source has two
groups and no group two files of one path, and exactly the groups of versions are named as
inherited. -/
structure FileTree.WellFormed (tree : FileTree) : Prop where
  inOrder : tree.InOrder
  apart : tree.Pairwise fun first second =>
    first.source.qualified "" ≠ second.source.qualified ""
  marked : ∀ group ∈ tree, group.source.kind = Reference.versionedDatasetKind ↔
    Text.startsWith Layout.inheritedMark group.source.name = true

/-- Every file of a well-formed tree is found under its source and its path. -/
theorem FileTree.WellFormed.addressable {tree : FileTree} (formed : tree.WellFormed) :
    tree.Addressable :=
  ⟨formed.inOrder, formed.apart⟩

/-- In a well-formed tree every path can be read off the key that it is copied from. -/
theorem FileTree.WellFormed.recoverable {tree : FileTree} (formed : tree.WellFormed)
    {group : SourceFiles} (member : group ∈ tree) (dataset path : String) :
    group.source.Recoverable dataset path := by
  have marked := formed.marked group member
  unfold Reference.Recoverable Layout.lineageParent?
  unfold Text.startsWith at marked
  cases named : Text.stripPrefix? Layout.inheritedMark group.source.name with
  | none => simpa [named] using marked
  | some parent => exact .inl (marked.mpr (by rw [named]; rfl))

/-- The form of a tree in which no two copies are attributed to one file: every file is found under
its source and its path, and only groups of versions are named as inherited. -/
structure FileTree.Tidy (tree : FileTree) : Prop extends tree.Addressable where
  marked : ∀ group ∈ tree, Text.startsWith Layout.inheritedMark group.source.name = true →
    group.source.kind = Reference.versionedDatasetKind

/-- A well-formed tree is tidy: its files are found under their sources and paths, and the sources
that are named like inherited ones are versioned datasets. -/
theorem FileTree.WellFormed.tidy {tree : FileTree} (formed : tree.WellFormed) : tree.Tidy :=
  ⟨formed.addressable, fun group member => (formed.marked group member).mpr⟩

/-- No declared source is named as if its files were inherited. -/
def Document.HasPlainSources (document : Document) : Prop :=
  ∀ group ∈ document.spec.fileGroups,
    Text.startsWith Layout.inheritedMark group.source.name = false

/-- A target is well formed if only its group of inherited files is named as inherited. -/
theorem Document.HasPlainSources.wellFormed_target {document : Document} {now : Timestamp}
    {lineage : List String} (plain : document.HasPlainSources) :
    (document.reconcile now lineage).target.files.WellFormed := by
  have other : Reference.datasourceKind ≠ Reference.versionedDatasetKind := by decide
  have marked : ∀ group ∈ (document.reconcile now lineage).target.files,
      group.source.kind = Reference.versionedDatasetKind ↔
        Text.startsWith Layout.inheritedMark group.source.name = true := by
    intro group member
    rcases source_of_mem_target member with ⟨source, same, own, listed, rfl⟩ | same
    · have unmarked := plain own listed
      simp [same, FileTree.declaredReference, Reference.qualified, other, unmarked]
    · have starts : Layout.lineageParent? document.lineageReference.name =
          some (document.spec.parent?.getD document.spec.version) :=
        Layout.lineageParent?_lineageName _
      rw [Layout.lineageParent?] at starts
      rw [same, Text.startsWith, starts]
      exact iff_of_true rfl rfl
  refine ⟨target_inOrder, ?_, marked⟩
  refine List.Pairwise.imp_of_mem (fun {first second} listed listed' apart same => ?_)
    (@target_apart document now lineage)
  rw [qualified_of_mem_target listed, qualified_of_mem_target listed'] at same
  obtain ⟨declared, inherited⟩ := apart same
  have name : first.source.name = second.source.name := congrArg QualifiedName.name same
  exact other (declared.symm.trans
    ((marked first listed).mpr (name ▸ (marked second listed').mp inherited)))

/-- What the completion of a copy is attributed to: its source and the path that is read off
its key. -/
def SyncJob.attribution (dataset : String) (job : SyncJob) : QualifiedName × String :=
  (job.owner, job.logicalPath dataset)

namespace SyncPlan

open Pool

variable {plan : SyncPlan} {groups : FileTree} {jobs : List SyncJob} {group : SourceFiles}
  {file : FileRecord} {location : Option Location} {job : SyncJob}

/-- A list of jobs has all jobs of a list of groups, in order. -/
inductive MakesAll (plan : SyncPlan) : FileTree → List SyncJob → Prop
  | nil : MakesAll plan [] []
  | cons {group : SourceFiles} {groups : FileTree} {later : List SyncJob}
      (location : Option Location) (located : plan.CanLocate group.source location)
      (rest : MakesAll plan groups later) :
      MakesAll plan (group :: groups)
        (group.files.filterMap (plan.jobFor? location group.source) ++ later)

/-- A producer hands over the jobs of the files of a group, and then what comes after. -/
theorem delivers_produceFiles {source : Reference} {whole : List SyncJob → Prop}
    {next : Bool → Producer SyncJob SyncError} (files : List FileRecord)
    (after : Delivers whole (next true)) :
    Delivers (fun jobs => ∃ later, whole later ∧
        jobs = files.filterMap (plan.jobFor? location source) ++ later)
      ((plan.produceFiles location source files).bind next) := by
  induction files with
  | nil => exact after.imp fun later all => ⟨later, all, rfl⟩
  | cons file files ih =>
    cases made : plan.jobFor? location source file with
    | none =>
      have going : Delivers (fun jobs => ∃ later, whole later ∧
            jobs = files.filterMap (plan.jobFor? location source) ++ later)
          (.ask .isStopping fun stopping =>
            (if stopping = true then .done false
              else plan.produceFiles location source files).bind next) := ih
      simpa [produceFiles, made, Producing.isStopping, Program.request] using going
    | some job =>
      have handed : Delivers (fun jobs => ∃ later, whole later ∧
            jobs = job :: (files.filterMap (plan.jobFor? location source) ++ later))
          (.ask .isStopping fun stopping =>
            (if stopping = true then .done false
              else (Producing.queue job).bind fun taken =>
                if taken = true then plan.produceFiles location source files
                else .done false).bind next) := by
        refine ih.imp ?_
        rintro jobs ⟨later, all, same⟩
        exact ⟨later, all, congrArg (job :: ·) same⟩
      simpa [produceFiles, made, Producing.isStopping, Program.request] using handed

/-- A producer hands over all jobs of its groups, unless it is interrupted or fails on its way. -/
theorem delivers_produceGroups (groups : FileTree) (checked : Bool) :
    Delivers (plan.MakesAll groups) (plan.produceGroups groups checked) := by
  induction groups generalizing checked with
  | nil => exact .nil
  | cons group groups ih =>
    refine delivers_calling fun calls answer leads => ?_
    cases answer with
    | error error => trivial
    | ok location =>
      have handed : Delivers (fun jobs => ∃ later, plan.MakesAll groups later ∧
            jobs = group.files.filterMap (plan.jobFor? location group.source) ++ later)
          ((plan.produceFiles location group.source group.files).bind fun going =>
            if going = true then plan.produceGroups groups true else .done (.ok ())) :=
        delivers_produceFiles group.files (ih true)
      refine handed.imp ?_
      rintro jobs ⟨later, all, rfl⟩
      exact .cons location (canLocate_of_prepare leads) all

/-- The producer of a plan hands over all jobs of the plan, unless it is stopped or gives up. -/
theorem delivers_produce (plan : SyncPlan) : Delivers (plan.MakesAll plan.groups) plan.produce :=
  delivers_produceGroups plan.groups false

/-- A job of a whole list is made for a file of one of the groups. -/
theorem MakesAll.made (all : plan.MakesAll groups jobs) (member : job ∈ jobs) :
    ∃ group ∈ groups, ∃ file ∈ group.files, ∃ location,
      plan.CanLocate group.source location ∧
        plan.jobFor? location group.source file = some job := by
  induction all with
  | nil => cases member
  | cons location located rest ih =>
    rcases List.mem_append.mp member with own | later
    · obtain ⟨file, listed, made⟩ := List.mem_filterMap.mp own
      exact ⟨_, List.mem_cons_self, file, listed, location, located, made⟩
    · obtain ⟨group, listed, found⟩ := ih later
      exact ⟨group, List.mem_cons_of_mem _ listed, found⟩

/-- A whole list has a job for every file that is due: a file that was settled gets none, and so
does a path that ends in a slash. -/
theorem MakesAll.due (all : plan.MakesAll groups jobs) (member : group ∈ groups)
    (listed : file ∈ group.files) (due : file.Due) :
    ∃ location, plan.CanLocate group.source location ∧
      ∃ job ∈ jobs, plan.jobFor? location group.source file = some job := by
  induction all with
  | nil => cases member
  | cons location located rest ih =>
    rcases List.mem_cons.mp member with rfl | later
    · have made : plan.jobFor? location group.source file = some _ :=
        jobFor?_eq_some_iff.mpr ⟨fun _ => due.1, due.2, rfl⟩
      exact ⟨location, located, _,
        List.mem_append_left _ (List.mem_filterMap.mpr ⟨file, listed, made⟩), made⟩
    · obtain ⟨location, located, job, among, made⟩ := ih later
      exact ⟨location, located, job, List.mem_append_right _ among, made⟩

/-- The files of a copy come from somewhere: a copy that finds no place for a group fails. -/
theorem CanLocate.isSome (copies : plan.mode = .copy) {source : Reference}
    (located : plan.CanLocate source location) : ∃ place, location = some place := by
  rcases (canLocate_iff copies).mp located with ⟨-, found⟩ | ⟨-, bucket, found⟩
  · exact ⟨_, found⟩
  · exact ⟨_, found⟩

/-- In a copy of a well-formed tree each completion is attributed to the file that its job was
made for. -/
theorem completes_of_made (copies : plan.mode = .copy) (formed : groups.WellFormed)
    (member : group ∈ groups) (located : plan.CanLocate group.source location)
    (made : plan.jobFor? location group.source file = some job) :
    Completes plan.document.datasetName job group.source file := by
  have path := (logicalPath_eq_iff copies located made).mpr (formed.recoverable member _ _)
  obtain ⟨place, rfl⟩ := located.isSome copies
  obtain ⟨-, -, rfl⟩ := jobFor?_eq_some_iff.mp made
  exact ⟨rfl, rfl, path⟩

/-- The copies of the files of one group are attributed to the source of the group and to their
paths, all of which one and the same text may stand in front of. It is enough to look at the path
that is read off the key: the owner of a job is the source itself. -/
theorem attribution_of_made (copies : plan.mode = .copy) (tidy : groups.Tidy)
    (member : group ∈ groups) (located : plan.CanLocate group.source location) :
    ∃ lead, ∀ file job, plan.jobFor? location group.source file = some job →
      job.attribution plan.document.datasetName = (group.source.qualified "", lead ++ file.path) := by
  suffices reads : ∃ lead, ∀ file job, plan.jobFor? location group.source file = some job →
      job.logicalPath plan.document.datasetName = lead ++ file.path by
    obtain ⟨lead, reads⟩ := reads
    refine ⟨lead, fun file job made => Prod.ext ?_ (reads file job made)⟩
    rw [(jobFor?_eq_some_iff.mp made).2.2]
    rfl
  rcases (canLocate_iff copies).mp located with ⟨inherited, rfl⟩ | ⟨own, bucket, rfl⟩
  · cases parent : Layout.lineageParent? group.source.name with
    | none =>
      refine ⟨Layout.versionPrefix plan.document.datasetName group.source.name, ?_⟩
      intro file job made
      rw [(jobFor?_eq_some_iff.mp made).2.2]
      simp [SyncJob.logicalPath, SyncJob.sourceKey, Reference.qualified, inheritedLocation, parent]
    | some version =>
      refine ⟨"", fun file job made => ?_⟩
      have stripped : Text.stripPrefix? (Layout.versionPrefix plan.document.datasetName version)
          (Layout.versionPrefix plan.document.datasetName version ++ file.path) =
            some file.path := Text.stripPrefix?_eq_some_iff.mpr rfl
      rw [(jobFor?_eq_some_iff.mp made).2.2]
      simp [SyncJob.logicalPath, SyncJob.sourceKey, Reference.qualified, inheritedLocation, parent,
        stripped]
  · have unmarked : Layout.lineageParent? group.source.name = none := by
      have marked := mt (tidy.marked group member) own
      unfold Text.startsWith at marked
      simpa [Layout.lineageParent?] using marked
    refine ⟨"", fun file job made => ?_⟩
    rw [(jobFor?_eq_some_iff.mp made).2.2]
    simp [SyncJob.logicalPath, SyncJob.sourceKey, Reference.qualified, unmarked]

/-- No two jobs of a copy of a tidy tree have one attribution: those of one group differ in their
paths, which increase within a group, and those of different groups in their sources. -/
theorem MakesAll.attributions_nodup (copies : plan.mode = .copy) (all : plan.MakesAll groups jobs)
    (tidy : groups.Tidy) :
    (jobs.map (SyncJob.attribution plan.document.datasetName)).Nodup := by
  induction all with
  | nil => exact List.nodup_nil
  | @cons group groups later location located rest ih =>
    obtain ⟨others, apart⟩ := List.pairwise_cons.mp tidy.apart
    have tidy' : FileTree.Tidy groups := {
      inOrder := ⟨tidy.inOrder.byName.tail,
        fun other member => tidy.inOrder.byPath other (List.mem_cons_of_mem _ member)⟩
      apart
      marked := fun other member => tidy.marked other (List.mem_cons_of_mem _ member) }
    obtain ⟨lead, own⟩ := attribution_of_made copies tidy List.mem_cons_self located
    rw [List.map_append, List.nodup_append]
    refine ⟨?_, ih tidy', ?_⟩
    · rw [List.nodup_iff_pairwise_ne, List.pairwise_map, List.pairwise_filterMap]
      refine (tidy.inOrder.byPath group List.mem_cons_self).imp ?_
      intro first second ordered job made job' made' same
      rw [own first job made, own second job' made'] at same
      have paths : first.path = second.path :=
        (String.append_right_inj lead).mp (Prod.mk.inj same).2
      rw [paths, Std.compare_self] at ordered
      cases ordered
    · rintro attribution member other member' rfl
      obtain ⟨job, listed, rfl⟩ := List.mem_map.mp member
      obtain ⟨job', listed', same⟩ := List.mem_map.mp member'
      obtain ⟨file, -, made⟩ := List.mem_filterMap.mp listed
      obtain ⟨group', among, file', -, location', located', made'⟩ := rest.made listed'
      obtain ⟨lead', own'⟩ := attribution_of_made copies tidy' among located'
      rw [own file job made, own' file' job' made'] at same
      exact others group' among (Prod.mk.inj same).1.symm

/-- Once every job of a copy of a well-formed tree has completed, the files that were not due
are as they were: each completion is for a file that is due. -/
theorem places_of_idle {completions : List Completion} {source : Reference} {i j : Nat}
    (copies : plan.mode = .copy) (formed : plan.groups.WellFormed)
    (all : plan.MakesAll plan.groups jobs) (perm : (completions.map Completion.job).Perm jobs)
    (places : plan.groups.Places i j source file) (idle : ¬ file.Due) :
    (recordAll plan.document.datasetName completions plan.groups).Places i j source file := by
  have addressable := formed.addressable
  refine places_recordAll_of_not addressable places ?_
  intro completion member completes processing
  have among : completion.job ∈ jobs := perm.mem_iff.mp (List.mem_map_of_mem member)
  obtain ⟨group, listed, other, inGroup, location, located, made⟩ := all.made among
  obtain ⟨-, owner, path⟩ := completes_of_made copies formed listed located made
  obtain ⟨i', j', places'⟩ := FileTree.places_of_mem listed inGroup
  obtain rfl : file = other := addressable.same places places'
    (completes.2.1.symm.trans owner) (completes.2.2.symm.trans path)
  exact idle ⟨processing, (jobFor?_eq_some_iff.mp made).2.1⟩

/-- Once every job of a copy of a well-formed tree has completed, each file that was due is
settled by the completion of its own job: no other job has its attribution. -/
theorem places_of_due {completions : List Completion} {source : Reference} {i j : Nat}
    (copies : plan.mode = .copy) (formed : plan.groups.WellFormed)
    (all : plan.MakesAll plan.groups jobs) (perm : (completions.map Completion.job).Perm jobs)
    (places : plan.groups.Places i j source file) (due : file.Due) :
    ∃ completion ∈ completions, plan.MakesFor i j completion.job ∧
      completion.job.destination = plan.destination file.path ∧
      (recordAll plan.document.datasetName completions plan.groups).Places i j source
        (file.settle completion.now completion.result) := by
  have addressable := formed.addressable
  obtain ⟨group, present, rfl, listed⟩ := places
  obtain ⟨location, located, job, among, made⟩ :=
    all.due (List.mem_of_getElem? present) (List.mem_of_getElem? listed) due
  have own := completes_of_made copies formed (List.mem_of_getElem? present) located made
  obtain ⟨completion, member, rfl⟩ : ∃ completion ∈ completions, completion.job = job :=
    List.mem_map.mp (perm.mem_iff.mpr among)
  have destination : completion.job.destination = plan.destination file.path := by
    rw [(jobFor?_eq_some_iff.mp made).2.2]
  refine ⟨completion, member, ⟨group, file, location, present, listed, located, made⟩,
    destination, ?_⟩
  obtain ⟨first, rest, rfl⟩ := List.append_of_mem member
  refine places_recordAll addressable ⟨group, present, rfl, listed⟩ due.1 own ?_
  intro earlier before completes
  have distinct := (perm.map (SyncJob.attribution plan.document.datasetName)).nodup_iff.mpr
    (all.attributions_nodup copies formed.tidy)
  rw [List.map_append, List.map_append, List.nodup_append] at distinct
  refine distinct.2.2 _ (List.mem_map_of_mem (List.mem_map_of_mem before)) _
    List.mem_cons_self ?_
  exact Prod.ext (completes.2.1.trans own.2.1.symm) (completes.2.2.trans own.2.2.symm)

end SyncPlan

end DatasetSync
