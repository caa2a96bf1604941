import DatasetSync.Proofs.Store.Inheritance
import DatasetSync.Proofs.Sync.Agenda
import DatasetSync.Proofs.Sync.Attribution
import DatasetSync.Proofs.Sync.Removal
import DatasetSync.Proofs.Sync.Schedule

/-!
# The copies of what is inherited

The parent of a version is read twice under two names. Its keys are listed under a prefix, and what
follows the prefix is listed as a path of a source that carries the name of the parent. For a copy
the name is read off the source, the prefix is put in front of the path, and when the copy is done
it is taken off again. All of this comes back to the keys that were listed, whatever the parent is
called and however the keys go on: each of them is copied once, but for those that end in a slash.
-/

namespace DatasetSync

/-- A text that goes on ends as its last part does. -/
theorem Text.endsWith_append {rest : String} (last : Char) (leading : String) (some : rest ≠ "") :
    endsWith last (leading ++ rest) = endsWith last rest := by
  have letters : rest.toList ≠ [] := fun none => some (String.toList_inj.mp none)
  rw [endsWith, endsWith, String.toList_append, List.getLast?_append_of_ne_nil _ letters]

/-- Where nothing is recorded, what is declared is taken as it is, without a change of order or
phase. -/
theorem FileTree.merge_empty (fallback : String) (tree : FileTree) :
    (merge fallback .empty tree).tree = tree := by
  induction tree with
  | nil => rfl
  | cons group tree ih =>
    rw [merge, OrderedMap.get?_empty]
    exact congrArg (group :: ·) ih

namespace ObjectStore

variable {store : ObjectStore} {bucket leading : String}

/-- The store after a call that only its log has noticed. -/
def noted (store : ObjectStore) (call : ObjectCall) : ObjectStore :=
  { store with log := store.log ++ [call] }

/-- A listing comes to something exactly in a bucket that is there and can be used. -/
theorem listObjects_ok_iff : (∃ listed, store.listObjects bucket leading true = .ok listed) ↔
    store.HasBucket bucket ∧ ¬ store.RefusesBucket bucket := by
  unfold listObjects checkBucket keysOf HasBucket RefusesBucket
  cases store.failingBuckets.get? bucket <;> cases store.buckets.get? bucket <;>
    simp [bind, Except.bind, pure, Except.pure]

end ObjectStore

namespace Document

variable {document : Document} {parent : String} {backends : Backends} {now : Timestamp}
  {paths : List String}

/-- The group of inherited files in which each path has just been entered. -/
def lineageGroup (document : Document) (paths : List String) : SourceFiles :=
  { source := document.lineageReference, files := FileTree.fresh (.ofList paths) }

/-- If nothing is recorded, a target has one group of inherited files, and it lists what was
inherited. Declared sources are listed as data sources, whatever kind the specification gives them,
so that no other group is of that kind. -/
theorem filter_target (inherits : document.spec.parent? = some parent)
    (unrecorded : document.files = []) :
    ((document.reconcile now paths).target.files.filter fun group =>
        group.source.kind = Reference.versionedDatasetKind) = [document.lineageGroup paths] := by
  have nothing : document.recorded = .empty := by
    rw [recorded, unrecorded]
    rfl
  have own : ∀ group ∈ FileTree.declared document.ns document.spec.fileGroups,
      ¬ group.source.kind = Reference.versionedDatasetKind := by
    intro group member
    obtain ⟨source, paths, -, rfl⟩ := FileTree.mem_declared member
    exact (by decide : Reference.datasourceKind ≠ Reference.versionedDatasetKind)
  have inherited : FileTree.inherited document.ns document.spec paths =
      document.lineageGroup paths := by
    rw [inherited_eq, inherits]
    rfl
  have sorting := Ordered.sortOn_perm (FileTree.rank document.ns) (document.declaredTree paths)
  have perm := sorting.filter
    fun group => decide (group.source.kind = Reference.versionedDatasetKind)
  rw [target_files, nothing, FileTree.merge_empty]
  refine List.perm_singleton.mp (perm.trans (.of_eq ?_))
  rw [declaredTree, List.filter_append, inherited,
    List.filter_eq_nil_iff.mpr fun group member => by simpa using own group member]
  rfl

/-- The listing of the parent version is one call, and it changes nothing but the log. -/
theorem listLineage_perform (inherits : document.spec.parent? = some parent)
    (backends : Backends) :
    document.listLineage.perform Backends.answer backends =
      (document.lineageIn backends.objects, { backends with
        objects := backends.objects.noted (.listObjects document.datasetNs
          (Layout.versionPrefix document.datasetName parent) true) }) := by
  unfold listLineage lineageIn
  rw [inherits]
  rfl

/-- The copy of an inherited file. -/
def inheritedCopy (document : Document) (parent path : String) : SyncJob :=
  { source := some ⟨document.datasetNs, Layout.versionPrefix document.datasetName parent ++ path⟩
    destination := document.place path
    owner := ⟨document.ns, Layout.lineageName parent⟩ }

/-- The path is read off the key of the copy of an inherited file. A leading slash is kept by this:
the key of the source has it. -/
theorem logicalPath_inheritedCopy (document : Document) (parent path : String) :
    (document.inheritedCopy parent path).logicalPath document.datasetName = path := by
  have stripped : Text.stripPrefix? (Layout.versionPrefix document.datasetName parent)
      (Layout.versionPrefix document.datasetName parent ++ path) = some path :=
    Text.stripPrefix?_eq_some_iff.mpr rfl
  simp [inheritedCopy, SyncJob.logicalPath, SyncJob.sourceKey, stripped]

end Document

namespace SyncPlan

open Pool

variable {plan : SyncPlan} {document : Document} {parent : String} {paths : List String}

/-- The copy of the files of one group of a document. -/
def copyingGroup (document : Document) (group : SourceFiles) (sizing : Pool.Sizing) : SyncPlan :=
  { mode := .copy, document, groups := [group], sizing }

/-- The jobs of the group of inherited files copy the paths that were listed, except for those that
end in a slash. -/
theorem jobsAt_lineageGroup (copies : plan.mode = .copy)
    (inherits : document.spec.parent? = some parent) (bucket : plan.bucket = document.datasetNs)
    (dataset : plan.document.datasetName = document.datasetName)
    (destination : plan.destination = document.place) :
    plan.jobsAt (document.lineageGroup paths)
        (plan.ownLocation (document.lineageGroup paths).source) =
      ((OrderedSet.ofList paths).toList.filter (!Text.endsWith '/' ·)).map
        (document.inheritedCopy parent) := by
  have due : plan.isDue ∘ (FileRecord.blank · .processing) = (!Text.endsWith '/' ·) := by
    funext path
    simp [isDue, FileRecord.blank]
  have from? : plan.ownLocation (document.lineageGroup paths).source =
      some ⟨document.datasetNs, Layout.versionPrefix document.datasetName parent⟩ := by
    simp [ownLocation, copies, inheritedLocation, Document.lineageGroup, Document.lineageReference,
      inherits, bucket, dataset]
  rw [from?, jobsAt, Document.lineageGroup, FileTree.fresh, List.filter_map, due, List.map_map]
  refine List.map_congr_left fun path _ => ?_
  simp [Document.inheritedCopy, FileRecord.blank, Document.lineageReference, inherits, destination]

/-- Where the bucket of the version is there and can be used, a group whose files need not be
searched for is prepared. -/
theorem prepare_perform {source : Reference} {backends : Backends}
    (own : plan.isResolved source = false) (there : backends.objects.HasBucket plan.bucket)
    (usable : ¬ backends.objects.RefusesBucket plan.bucket) :
    (plan.prepare source false).perform Backends.answer backends =
      (.ok (plan.ownLocation source),
        (backends.answer (.object (.bucketExists plan.bucket))).2) := by
  have answered : (backends.answer (.object (.bucketExists plan.bucket))).1 = .ok true := by
    rcases backends.objects.bucketExists_cases plan.bucket with ⟨refuses, -⟩ |
      ⟨-, ⟨-, same⟩ | ⟨absent, -⟩⟩
    · exact absurd refuses usable
    · exact same
    · exact absurd there absent
  rw [prepare, locate?_eq_done own]
  simp only [Program.bind_eq, Program.done_bind, ensureBucket, Call.bucketExists,
    Program.request, Program.ask_bind, Calling.perform, Bool.false_eq_true, if_false]
  rw [answered]
  rfl

/-- On such a ground a plan of one such group hands over the jobs of the group, and ends well. -/
theorem agenda_singleton {group : SourceFiles} {backends : Backends} (one : plan.groups = [group])
    (own : plan.isResolved group.source = false)
    (there : backends.objects.HasBucket plan.bucket)
    (usable : ¬ backends.objects.RefusesBucket plan.bucket) :
    (Pool.agenda plan.produce backends).result = .ok () ∧
      (Pool.agenda plan.produce backends).jobs =
        plan.jobsAt group (plan.ownLocation group.source) := by
  have whole : plan.produce = plan.produceGroups [group] false := by rw [produce, one]
  rw [whole, agenda_produceGroups, prepare_perform own there usable]
  dsimp only
  rw [agenda_produceFiles, filterMap_jobFor?]
  constructor
  · rfl
  · simp [Agenda.jobs, produceGroups, Pool.agenda, Function.comp_def]

end SyncPlan

namespace Document

open SyncPlan

variable {document : Document} {parent : String}

/-- Paths were listed for a parent version, and jobs are the copies of the files with these paths:
they read the objects of the store that were listed. -/
structure CopiesLineage (document : Document) (parent : String) (objects : ObjectStore)
    (paths : List String) (jobs : List SyncJob) : Prop where
  /-- The paths strictly increase. -/
  increasing : paths.Pairwise fun first second => compare first second = .lt
  /-- The objects that are read are those of the bucket whose keys go on behind the prefix of the
  parent version, and do not end in a slash. -/
  reads : ∀ address, (∃ job ∈ jobs, job.source = some address) ↔
    address.bucket = document.datasetNs ∧ objects.Holds address ∧
      Text.endsWith '/' address.key = false ∧
      ∃ rest, rest ≠ "" ∧ address.key = Layout.versionPrefix document.datasetName parent ++ rest
  /-- No job reads what another one reads. -/
  once : (jobs.map SyncJob.source).Nodup
  /-- No job is a removal. -/
  copies : ∀ job ∈ jobs, job.removes = false
  /-- The path that is read off a job is the path that was listed. -/
  returns : jobs.map (SyncJob.logicalPath document.datasetName) =
    paths.filter (!Text.endsWith '/' ·)

/-- The parent version can be listed exactly in a bucket that is there and can be used. -/
theorem lineageIn_ok_iff {objects : ObjectStore} (inherits : document.spec.parent? = some parent) :
    (∃ paths, document.lineageIn objects = .ok paths) ↔
      objects.HasBucket document.datasetNs ∧ ¬ objects.RefusesBucket document.datasetNs := by
  have listing := @ObjectStore.listObjects_ok_iff objects document.datasetNs
    (Layout.versionPrefix document.datasetName parent)
  rw [← listing, lineageIn, inherits]
  dsimp only
  cases objects.listObjects document.datasetNs
    (Layout.versionPrefix document.datasetName parent) true <;> simp [Except.map]

/-- What is listed are the elements of a set, in order, so nothing is listed twice. -/
theorem exists_toList_of_listed {objects : ObjectStore} {paths : List String}
    (listed : document.lineageIn objects = .ok paths) : ∃ set : OrderedSet String,
      paths = set.toList := by
  rcases lineageIn_cases listed with ⟨-, rfl⟩ | ⟨parent, found, -, -, rfl⟩
  · exact ⟨.empty, rfl⟩
  · exact ⟨_, rfl⟩

/-- The copies of the paths that were listed are the copies of what is inherited. Paths that end in
a slash are listed, but no copy is made for them. -/
theorem copiesLineage_of_listed {objects : ObjectStore} {paths : List String}
    (inherits : document.spec.parent? = some parent)
    (listed : document.lineageIn objects = .ok paths) :
    document.CopiesLineage parent objects paths
      ((paths.filter (!Text.endsWith '/' ·)).map (document.inheritedCopy parent)) := by
  obtain ⟨set, ordered⟩ := exists_toList_of_listed listed
  have among : ∀ path, path ∈ paths ↔ path ≠ "" ∧ objects.Holds
      ⟨document.datasetNs, Layout.versionPrefix document.datasetName parent ++ path⟩ := by
    intro path
    simp [mem_lineageIn_iff listed, Inherits, inherits]
  constructor
  · exact ordered ▸ set.increasing
  · intro address
    constructor
    · rintro ⟨job, member, read⟩
      obtain ⟨path, kept, rfl⟩ := List.mem_map.mp member
      obtain ⟨member, plain⟩ := List.mem_filter.mp kept
      obtain ⟨some, held⟩ := (among path).mp member
      cases read
      refine ⟨rfl, held, ?_, path, some, rfl⟩
      rw [Text.endsWith_append _ _ some]
      simpa using plain
    · rintro ⟨bucket, held, plain, path, some, key⟩
      obtain ⟨where', name⟩ := address
      dsimp only at bucket key held plain
      subst bucket key
      rw [Text.endsWith_append _ _ some] at plain
      have kept : path ∈ paths.filter (!Text.endsWith '/' ·) :=
        List.mem_filter.mpr ⟨(among path).mpr ⟨some, held⟩, by simp [plain]⟩
      exact ⟨_, List.mem_map_of_mem kept, rfl⟩
  · rw [List.map_map]
    have distinct : (paths.filter (!Text.endsWith '/' ·)).Nodup := (ordered ▸ set.nodup).filter _
    refine distinct.map ?_
    intro first second same
    simpa [inheritedCopy] using same
  · intro job member
    obtain ⟨path, -, rfl⟩ := List.mem_map.mp member
    rfl
  · rw [List.map_map]
    refine (List.map_congr_left fun path _ => ?_).trans (List.map_id _)
    exact document.logicalPath_inheritedCopy parent path

/-- The listing of the parent version comes to paths exactly if the bucket of the dataset is there
and can be used. From these paths a comparison that has nothing on record makes one group of
inherited files. The jobs of the group copy what was listed, and a copy of the group alone hands
over these jobs; so does, among others, any copy of the whole target that gets through, since the
group has the same jobs alone and in the whole target. -/
theorem lineage_copied (inherits : document.spec.parent? = some parent)
    (unrecorded : document.files = []) (backends : Backends) (now : Timestamp)
    (sizing : Pool.Sizing) :
    (document.listLineage.perform Backends.answer backends).2.objects =
        backends.objects.noted (.listObjects document.datasetNs
          (Layout.versionPrefix document.datasetName parent) true) ∧
      ((∃ paths, (document.listLineage.perform Backends.answer backends).1 = .ok paths) ↔
        backends.objects.HasBucket document.datasetNs ∧
          ¬ backends.objects.RefusesBucket document.datasetNs) ∧
      ∀ paths, (document.listLineage.perform Backends.answer backends).1 = .ok paths →
        ∃ group jobs,
          ((document.reconcile now paths).target.files.filter fun group =>
            group.source.kind = Reference.versionedDatasetKind) = [group] ∧
          document.CopiesLineage parent backends.objects paths jobs ∧
          (Pool.agenda (copyingGroup document group sizing).produce
            (document.listLineage.perform Backends.answer backends).2).result = .ok () ∧
          (Pool.agenda (copyingGroup document group sizing).produce
            (document.listLineage.perform Backends.answer backends).2).jobs = jobs ∧
          ∀ trail, (document.targetCopy now paths sizing).produce.Leads trail (.done (.ok ())) →
            Pool.interrupted trail = false →
            ∃ front back, Pool.taken trail = front ++ jobs ++ back := by
  have performed := listLineage_perform inherits backends
  have usable := @lineageIn_ok_iff document parent backends.objects inherits
  rw [performed]
  refine ⟨rfl, usable, fun paths listed => ?_⟩
  obtain ⟨there, unrefused⟩ := usable.mp ⟨paths, listed⟩
  obtain ⟨set, rfl⟩ := exists_toList_of_listed listed
  have foreign : ∀ plan : SyncPlan, plan.isResolved document.lineageReference = false := by
    simp [isResolved, lineageReference]
  let alone := copyingGroup document (document.lineageGroup set.toList) sizing
  have single := @jobsAt_lineageGroup alone document parent set.toList rfl inherits rfl rfl rfl
  have whole := @jobsAt_lineageGroup (document.targetCopy now set.toList sizing) document parent
    set.toList rfl inherits rfl rfl rfl
  rw [OrderedSet.ofList_toList] at single whole
  have among := @filter_target document parent now set.toList inherits unrecorded
  obtain ⟨ready, jobs⟩ := @agenda_singleton alone (document.lineageGroup set.toList)
    { backends with objects := backends.objects.noted (.listObjects document.datasetNs
        (Layout.versionPrefix document.datasetName parent) true) }
    rfl (foreign alone) there unrefused
  refine ⟨_, _, among, copiesLineage_of_listed inherits listed, ready, jobs.trans single, ?_⟩
  intro trail leads calm
  obtain ⟨found, taken⟩ := (produceGroups_passes leads).through calm rfl
  have member : document.lineageGroup set.toList ∈
      (document.targetCopy now set.toList sizing).groups :=
    List.mem_of_mem_filter (among ▸ List.mem_singleton_self _)
  obtain ⟨front, back, split⟩ := schedule_of_mem member (foreign _) found
  exact ⟨front, back, by rw [taken, ← whole]; exact split⟩

/-- A version whose parent is named like a source of inherited files. It declares a file under the
name that its own inherited files are listed under. -/
def oddHeir : Document :=
  { metadata := { Metadata.empty with name := some "ds-v2", ns := some "team-a" }
    spec := { dataset := { apiGroup := none, kind := "Dataset", name := "ds", ns := none }
              version := "v2", inheritedFrom := some "inherited-from-v1", released := false
              fileGroups := [{
                source := { apiGroup := none, kind := Reference.datasourceKind
                            name := "inherited-from-inherited-from-v1", ns := none }
                paths := ["a.txt"] }] }
    status := none }

/-- Keys that are odd in one way or another: the prefix itself, one with two slashes in a row, one
that ends in a slash, and one that only looks as if it were in the parent. -/
def oddKeys : List String :=
  ["", "/x", "a.txt", "sub/"].map ("dataset/ds/inherited-from-v1/" ++ ·) ++
    ["dataset/ds/inherited-from-v1.txt"]

/-- Surroundings in which the bucket of the odd version has the odd keys. -/
def oddBackends : Backends :=
  { objects := oddKeys.foldl (fun store key => store.putObject "team-a" key) .empty
    documents := .empty
    table := .empty
    now := "2024-05-01T00:00:00+00:00" }

/-- The law of inherited files, for the odd version: of its three paths the one that ends in a slash
is listed and not copied. -/
theorem oddHeir_copied : ∃ group jobs,
    ((oddHeir.reconcile oddBackends.now ["/x", "a.txt", "sub/"]).target.files.filter fun group =>
      group.source.kind = Reference.versionedDatasetKind) = [group] ∧
    oddHeir.CopiesLineage "inherited-from-v1" oddBackends.objects ["/x", "a.txt", "sub/"] jobs ∧
    jobs.map (SyncJob.logicalPath "ds") = ["/x", "a.txt"] := by
  have law := @lineage_copied oddHeir "inherited-from-v1" rfl rfl oddBackends oddBackends.now
    .standard
  have listed : (oddHeir.listLineage.perform Backends.answer oddBackends).1 =
      .ok ["/x", "a.txt", "sub/"] := rfl
  obtain ⟨group, jobs, alone, copies, -⟩ := law.2.2 _ listed
  exact ⟨group, jobs, alone, copies, copies.returns⟩

end Document

end DatasetSync
