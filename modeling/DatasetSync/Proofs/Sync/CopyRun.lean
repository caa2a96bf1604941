import Mathlib.Data.List.Nodup
import DatasetSync.Proofs.Sync.Working

/-!
# A copy from its start to its end

A copy of a well-formed tree that is not cancelled and does not give up settles every file that
is due by what its own call was answered, and leaves everything else in the tree alone. The
jobs run in any order and at any time, and others act in between; only for objects to stay
where they are the others must not remove any.
-/

namespace DatasetSync

namespace SyncPlan

open Pool

variable {plan : SyncPlan} {others : Backends → Backends → Prop} {history : List Moment}
  {pool : SyncPool} {tree : FileTree} {first backends : Backends}

/-- A file has been copied by a call of its own, which was made once and is the only one of its
job, and the tree tells how that call was answered. -/
structure Settles (plan : SyncPlan) (history : List Moment) (tree : FileTree) (i j : Nat)
    (source : Reference) (file : FileRecord) (attempt : Attempt) (now : Timestamp) : Prop where
  /-- The job was made for the file. -/
  made : plan.MakesFor i j attempt.job
  attempted : attempt ∈ attempts history
  once : ((attempts history).map Attempt.job).count attempt.job = 1
  /-- The result is the answer to the call, in the surroundings in which it was made. -/
  answered : ∃ origin, attempt.job.source = some origin ∧ attempt.result =
    (attempt.backends.objects.answer (.copyObject attempt.job.destination origin)).1
  /-- The clock showed the time when the completion was handed over. -/
  handed : ⟨attempt.job, attempt.result, now⟩ ∈ completions history
  recorded : tree.Places i j source (file.settle now attempt.result)

/-- A run that has come to its end has carried out each of its jobs once and has handed over
its result. -/
theorem Working.complete (working : plan.Working others first history pool tree backends)
    (ended : pool.ended? = some (.ok ())) :
    ∃ jobs, plan.MakesAll plan.groups jobs ∧
      ((completions history).map Completion.job).Perm jobs ∧
      (attempts history).map (fun attempt => (attempt.job, attempt.result)) =
        (completions history).map fun completion => (completion.job, completion.result) := by
  obtain ⟨reachable, uncancelled⟩ := working.reachable
  obtain ⟨jobs, all, perm⟩ := (reachable.honors plan.delivers_produce).complete ended uncancelled
  have same : pool.floor.executed = pool.floor.delivered := by
    rw [Floor.executed, (State.ended_ok ended).2.2.2, List.append_nil]
  rw [← working.delivered, List.map_map] at perm
  exact ⟨jobs, all, perm, working.executed.trans (same.trans working.delivered.symm)⟩

/-- Jobs that were carried out with the results that were handed over are the jobs that these
belong to. -/
theorem jobs_of_handed
    (carried : (attempts history).map (fun attempt => (attempt.job, attempt.result)) =
      (completions history).map fun completion => (completion.job, completion.result)) :
    (attempts history).map Attempt.job = (completions history).map Completion.job := by
  simpa [Function.comp_def] using congrArg (List.map Prod.fst) carried

/-- Each completion goes back to one attempt, which is the only one of its job if no two jobs
are the same. -/
theorem Working.attempted {completion : Completion}
    (carried : (attempts history).map (fun attempt => (attempt.job, attempt.result)) =
      (completions history).map fun completion => (completion.job, completion.result))
    (distinct : ((completions history).map Completion.job).Nodup)
    (handed : completion ∈ completions history) :
    ∃ attempt ∈ attempts history, attempt.job = completion.job ∧
      attempt.result = completion.result ∧
      ((attempts history).map Attempt.job).count attempt.job = 1 := by
  obtain ⟨attempt, attempted, same⟩ : ∃ attempt ∈ attempts history,
      (attempt.job, attempt.result) = (completion.job, completion.result) := by
    refine List.mem_map.mp ?_
    rw [carried]
    exact List.mem_map_of_mem handed
  obtain ⟨sameJob, sameResult⟩ := Prod.mk.inj same
  refine ⟨attempt, attempted, sameJob, sameResult, ?_⟩
  rw [jobs_of_handed carried, sameJob]
  exact List.count_eq_one_of_mem distinct (List.mem_map_of_mem handed)

/-- A copy of a well-formed tree that comes to its end leaves a file that was not due as it was: no
job was made for it, and no completion of another job is attributed to it. -/
theorem Working.places_idle {document : Document} {sizing : Sizing} {i j : Nat}
    {source : Reference} {file : FileRecord} (formed : document.files.WellFormed)
    (working : (copying document sizing).Working others first history pool tree backends)
    (ended : pool.ended? = some (.ok ())) (places : document.files.Places i j source file)
    (idle : ¬ file.Due) : tree.Places i j source file := by
  obtain ⟨jobs, all, perm, -⟩ := working.complete ended
  rw [working.tree_eq]
  exact places_of_idle rfl formed all perm places idle

/-- A copy of a well-formed tree that comes to its end settles a file that was due by what its own
call was answered. If nobody else removes objects, and the call was answered well, the object of the
file is there. -/
theorem Working.settles_due {document : Document} {sizing : Sizing} {i j : Nat}
    {source : Reference} {file : FileRecord} (formed : document.files.WellFormed)
    (working : (copying document sizing).Working others first history pool tree backends)
    (ended : pool.ended? = some (.ok ())) (places : document.files.Places i j source file)
    (due : file.Due) : ∃ attempt now,
      (copying document sizing).Settles history tree i j source file attempt now ∧
      ((∀ before after, others before after →
          ∀ place, before.objects.Holds place → after.objects.Holds place) →
        attempt.result = .ok () →
          backends.objects.Holds ((copying document sizing).destination file.path)) := by
  obtain ⟨jobs, all, perm, carried⟩ := working.complete ended
  have copies : (copying document sizing).mode = .copy := rfl
  obtain ⟨completion, handed, made, destination, recorded⟩ :=
    places_of_due copies formed all perm places due
  have distinct := perm.nodup_iff.mpr (all.attributions_nodup copies formed.tidy).of_map
  obtain ⟨attempt, attempted, sameJob, sameResult, once⟩ :=
    Working.attempted carried distinct handed
  obtain ⟨origin, copied⟩ : ∃ origin, attempt.job.source = some origin := by
    rw [sameJob]
    obtain ⟨group, other, location, -, -, located, made⟩ := made
    obtain ⟨place, rfl⟩ := located.isSome copies
    rw [(jobFor?_eq_some_iff.mp made).2.2]
    exact ⟨_, rfl⟩
  have answered : attempt.result =
      (attempt.backends.objects.answer (.copyObject attempt.job.destination origin)).1 := by
    rw [← working.answered attempt attempted, perform_copy copied]
  refine ⟨attempt, completion.now, ?_, fun kept ok => ?_⟩
  · exact {
      made := sameJob ▸ made
      attempted, once
      answered := ⟨origin, copied, answered⟩
      handed := by rw [sameJob, sameResult]; exact handed
      recorded := by rw [working.tree_eq, sameResult]; exact recorded }
  · have held := working.holds copies kept attempt attempted ok
    rwa [sameJob, destination] at held

/-- A copy of a well-formed tree that comes to its end keeps all sources and paths. It settles
each file that is due by what its own call was answered, and leaves all other files as they
were. If nobody else removes objects, those of the files that are newly copied are there. -/
theorem copy_settles_due_files {document : Document} {sizing : Sizing}
    (formed : document.files.WellFormed)
    (working : (copying document sizing).Working others first history pool tree backends)
    (ended : pool.ended? = some (.ok ())) :
    tree.outline = document.files.outline ∧
      ∀ i j source file, document.files.Places i j source file →
        (¬ file.Due → tree.Places i j source file) ∧
        (file.Due → ∃ attempt now,
          (copying document sizing).Settles history tree i j source file attempt now ∧
          ((∀ before after, others before after →
              ∀ place, before.objects.Holds place → after.objects.Holds place) →
            attempt.result = .ok () →
              backends.objects.Holds ((copying document sizing).destination file.path))) :=
  ⟨working.tree_eq ▸ outline_recordAll _ _, fun _ _ _ _ places =>
    ⟨working.places_idle formed ended places, working.settles_due formed ended places⟩⟩

/-- A document of which one file is to be copied. -/
def dueDocument : Document :=
  { metadata := { Metadata.empty with name := some "ds-v1", ns := some "team-a" }
    spec := { dataset := { apiGroup := none, kind := "Dataset", name := "ds", ns := none }
              version := "v1", inheritedFrom := none, released := false, fileGroups := [] }
    status := some {
      conditions := []
      files := [{
        source := FileTree.declaredReference ⟨"team-a", "raw"⟩
        files := [.blank "a.txt" .processing] }] } }

/-- The tree of the document is well formed: it has one group with one file. -/
theorem dueDocument_formed : dueDocument.files.WellFormed where
  inOrder := ⟨List.pairwise_singleton _ _, by
    intro group member
    obtain rfl := List.mem_singleton.mp member
    exact List.pairwise_singleton _ _⟩
  apart := List.pairwise_singleton _ _
  marked := by decide

/-- A store in which the one file can be copied. -/
def dueBackends : Backends :=
  { objects := (ObjectStore.empty.putBucket "team-a").putObject "raw" "a.txt"
    documents := .empty
    table := { BucketTable.empty with buckets := OrderedMap.empty.insert "raw" "raw" }
    now := "2024-05-01T00:00:00+00:00" }

/-- The copy of the one file comes to its end, and records the file as synced. -/
theorem dueDocument_copied : ∃ history pool tree backends,
    (copying dueDocument .standard).Working (· = ·) dueBackends history pool tree backends ∧
      pool.ended? = some (.ok ()) ∧ tree.allFiles.map FileRecord.phase = [.succeeded] := by
  have going := (@Working.start (copying dueDocument .standard) (· = ·) dueBackends).work
    (.observe _) (.internal _ _)
  have located := going.work (.call (.resolve _ _) _ _) (.called _ _ _)
  have checked := located.work (.call (.object (.bucketExists "team-a")) _ _) (.called _ _ _)
  have next := checked.work (.observe _) (.internal _ _)
  have queued := next.work (.enqueue _ _ rfl) (.internal _ _)
  have started := queued.work (.start rfl rfl (by decide)) (.internal _ _)
  have ended := started.work (.finish 0 _ (.ok ()) rfl) (.executed _ rfl)
  have handed := ended.work (.deliver _ _ _ rfl) (.delivered _ _ _ _)
  exact ⟨_, _, _, _, handed, rfl, rfl⟩

/-- The file of the document is settled by what its own call was answered. The call was answered
well, so that the object of the file is there. -/
theorem dueDocument_settled : ∃ history pool tree backends,
    (copying dueDocument .standard).Working (· = ·) dueBackends history pool tree backends ∧
      pool.ended? = some (.ok ()) ∧ tree.outline = dueDocument.files.outline ∧
      ∃ attempt now, (copying dueDocument .standard).Settles history tree 0 0
          (FileTree.declaredReference ⟨"team-a", "raw"⟩) (.blank "a.txt" .processing) attempt now ∧
        attempt.result = .ok () ∧
        backends.objects.Holds ⟨"team-a", Layout.objectKey "ds" "v1" "a.txt"⟩ := by
  obtain ⟨history, pool, tree, backends, working, ended, synced⟩ := dueDocument_copied
  obtain ⟨outline, files⟩ := copy_settles_due_files dueDocument_formed working ended
  have places : dueDocument.files.Places 0 0 (FileTree.declaredReference ⟨"team-a", "raw"⟩)
      (.blank "a.txt" .processing) := ⟨_, rfl, rfl, rfl⟩
  obtain ⟨attempt, now, settles, held⟩ := (files _ _ _ _ places).2 ⟨rfl, by decide⟩
  have listed := List.mem_map_of_mem (f := FileRecord.phase) settles.recorded.mem_allFiles
  rw [synced, List.mem_singleton] at listed
  have succeeded : attempt.result = .ok () := by
    cases outcome : attempt.result with
    | ok => rfl
    | error error =>
      rw [outcome] at listed
      cases listed
  refine ⟨history, pool, tree, backends, working, ended, outline, attempt, now, settles, succeeded,
    held (fun before after same place present => ?_) succeeded⟩
  subst same
  exact present

end SyncPlan

end DatasetSync
