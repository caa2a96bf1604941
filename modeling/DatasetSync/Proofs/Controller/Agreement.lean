import DatasetSync.Proofs.Controller.Copying
import DatasetSync.Proofs.FileTree.Timeless
import DatasetSync.Proofs.Ordered.Lookup
import DatasetSync.Proofs.Sync.Fulfilment

/-!
# Executions of one copy agree

A copy can be carried out with any number of workers, any length of the queue and in any order.
Here all its executions from given surroundings are compared. It is assumed that its tree is tidy,
so that no two jobs report on one file, and that no job copies from where another one copies to.
Then the agenda tells how the copy ends. If all jobs can be made, all executions leave the same:
the same tree, the same statuses and the same keys in every bucket, up to times.

If some source does not exist or the bucket cannot be used, the producer gives up, and the work
stops without being cancelled: every execution fails with the same error and writes no document.
How many of the jobs that were already made are still carried out depends on the workers and on the
queue. So the keys may differ then, but only by the places of jobs on the agenda.
-/

namespace DatasetSync

/-- Stores with the same buckets and the same objects list the same keys. -/
theorem ObjectStore.keys?_congr {store store' : ObjectStore}
    (buckets : ∀ bucket, store.HasBucket bucket ↔ store'.HasBucket bucket)
    (objects : ∀ place, store.Holds place ↔ store'.Holds place) (bucket : String) :
    store.keys? bucket = store'.keys? bucket := by
  unfold keys?
  cases found : store.buckets.get? bucket with
  | none =>
    have absent : store'.buckets.get? bucket = none := by
      simpa [HasBucket, found] using buckets bucket
    rw [absent]
  | some keys =>
    obtain ⟨keys', found'⟩ : ∃ keys', store'.buckets.get? bucket = some keys' :=
      Option.ne_none_iff_exists'.mp ((buckets bucket).mp (by simp [HasBucket, found]))
    have same : keys = keys' := OrderedSet.ext_of_mem fun key => by
      simpa [holds_iff, found, found'] using objects ⟨bucket, key⟩
    rw [found', same]

namespace SyncPlan

open Pool Relation FileTree

variable {dataset : String} {tree : FileTree} {completions completions' : List Completion}
  {verdict : SyncJob → Except StorageError Unit}

/-- What completions that are told by their jobs make of one file: if one of them is for it and it
is being processed, it is settled as the verdict of that job says, and else it stays. -/
theorem places_recordAll_of_verdicts {i j : Nat} {source : Reference} {file : FileRecord}
    (addressable : tree.Addressable)
    (distinct : ((completions.map Completion.job).map (SyncJob.attribution dataset)).Nodup)
    (results : ∀ completion ∈ completions, completion.result = verdict completion.job)
    (places : tree.Places i j source file) :
    (∃ job ∈ completions.map Completion.job, Completes dataset job source file ∧
        file.phase = .processing ∧ ∃ now, (recordAll dataset completions tree).Places i j source
          (file.settle now (verdict job))) ∨
      ((∀ job ∈ completions.map Completion.job, Completes dataset job source file →
          file.phase ≠ .processing) ∧
        (recordAll dataset completions tree).Places i j source file) := by
  by_cases own : ∃ job ∈ completions.map Completion.job, Completes dataset job source file ∧
      file.phase = .processing
  · obtain ⟨job, member, completes, processing⟩ := own
    obtain ⟨completion, handed, rfl⟩ := List.mem_map.mp member
    refine .inl ⟨_, member, completes, processing, completion.now, ?_⟩
    rw [← results completion handed]
    obtain ⟨first, rest, rfl⟩ := List.append_of_mem handed
    refine places_recordAll addressable places processing completes ?_
    intro earlier before completes'
    rw [List.map_append, List.map_append, List.nodup_append] at distinct
    refine distinct.2.2 _ (List.mem_map_of_mem (List.mem_map_of_mem before)) _
      List.mem_cons_self ?_
    exact Prod.ext (completes'.2.1.trans completes.2.1.symm)
      (completes'.2.2.trans completes.2.2.symm)
  · have others : ∀ job ∈ completions.map Completion.job, Completes dataset job source file →
        file.phase ≠ .processing :=
      fun job member completes processing => own ⟨job, member, completes, processing⟩
    exact .inr ⟨others, places_recordAll_of_not addressable places fun completion handed =>
      others completion.job (List.mem_map_of_mem handed)⟩

/-- Completions of the same jobs with the same results make the same of a tree, in any order and at
any time. Each file is settled by one job at most, as no other job is for it, and either sequence
settles it by that job. -/
theorem timeless_recordAll (addressable : tree.Addressable)
    (distinct : ((completions.map Completion.job).map (SyncJob.attribution dataset)).Nodup)
    (perm : (completions.map Completion.job).Perm (completions'.map Completion.job))
    (results : ∀ completion ∈ completions, completion.result = verdict completion.job)
    (results' : ∀ completion ∈ completions', completion.result = verdict completion.job) :
    (recordAll dataset completions tree).timeless =
      (recordAll dataset completions' tree).timeless := by
  have distinct' := (perm.map (SyncJob.attribution dataset)).nodup_iff.mp distinct
  have outline := @outline_recordAll dataset completions tree
  have outline' := @outline_recordAll dataset completions' tree
  refine timeless_ext (outline.trans outline'.symm) ?_
  intro i j source source' after after' placed placed'
  obtain ⟨file, places⟩ := placed.of_outline outline
  rcases places_recordAll_of_verdicts addressable distinct results places with
      ⟨job, member, completes, processing, now, settled⟩ | ⟨others, stays⟩ <;>
    rcases places_recordAll_of_verdicts addressable distinct' results' places with
      ⟨job', member', completes', processing', now', settled'⟩ | ⟨others', stays'⟩
  · obtain ⟨-, rfl⟩ := placed.unique settled
    obtain ⟨-, rfl⟩ := placed'.unique settled'
    have same : job = job' := List.inj_on_of_nodup_map distinct member (perm.mem_iff.mpr member')
      (Prod.ext (completes.2.1.trans completes'.2.1.symm)
        (completes.2.2.trans completes'.2.2.symm))
    rw [same]
    exact file.timeless_settle now now' _
  · exact absurd processing (others' job (perm.mem_iff.mp member) completes)
  · exact absurd processing' (others job' (perm.mem_iff.mpr member') completes')
  · rw [(placed.unique stays).2, (placed'.unique stays').2]

section Ends

variable {plan : SyncPlan} {tree tree' : FileTree} {before : DocumentStore}
  {outcome outcome' : Except SyncError RunOutcome} {documents documents' : DocumentStore}

/-- The documents that a copy leaves if it may not write its status: it clears the finalizers of a
deleted document, and changes nothing else. -/
def idleEnd (plan : SyncPlan) (before : DocumentStore) : DocumentStore :=
  match before.get? plan.document.key with
  | some latest => if latest.isDeleting then (before.update latest.unguarded).2 else before
  | none => before

/-- A copy that has made all its jobs leaves its document with the status that it makes of the
stored one, if it may write to it. Of the stored version nothing is used but that it was found. -/
theorem Ends.leaves (copies : plan.mode = .copy)
    (ends : plan.Ends tree before (.ok ()) outcome documents) :
    (documents = plan.idleEnd before ∧
        ∀ latest token, before.get? plan.document.key = some latest →
          ¬ plan.Accepts latest token) ∨
      ∃ latest token now, before.get? plan.document.key = some latest ∧
        plan.Accepts latest token ∧ ∀ key, (documents.get? key).map Document.status =
          if plan.document.key = key then some (some (commitStatus latest.status tree now))
          else (before.get? key).map Document.status := by
  have copies' : plan.mode ≠ .remove := by simp [copies]
  have only : ∀ {latest : Document}, before.get? plan.document.key = some latest →
      (∀ token, ¬ plan.Accepts latest token) → ∀ other token,
        before.get? plan.document.key = some other → ¬ plan.Accepts other token := by
    intro latest found rejects other token found'
    obtain rfl : latest = other := Option.some.inj (found.symm.trans found')
    exact rejects token
  cases ends with
  | gone absent => exact .inl ⟨by simp [idleEnd, absent], by simp [absent]⟩
  | released found deleting =>
    refine .inl ⟨by simp [idleEnd, found, deleting], only found fun token accepts => ?_⟩
    exact Bool.false_ne_true (accepts.living.symm.trans deleting)
  | removed found living removes => exact absurd removes copies'
  | tokenless found living _ missing =>
    refine .inl ⟨by simp [idleEnd, found, living], only found fun token accepts => ?_⟩
    exact Option.some_ne_none token (accepts.snapshot.symm.trans missing)
  | superseded found living _ snapshot moved =>
    refine .inl ⟨by simp [idleEnd, found, living], only found fun token accepts => ?_⟩
    exact moved (accepts.current.trans accepts.snapshot.symm)
  | @unchanged latest token now found accepts same =>
    refine .inr ⟨latest, token, now, found, accepts, fun key => ?_⟩
    split
    · rename_i own
      rw [← own, found]
      exact congrArg some same
    · rfl
  | @committed latest token now found accepts differs =>
    refine .inr ⟨latest, token, now, found, accepts, fun key => ?_⟩
    rw [DocumentStore.get?_patchStatus_of_current found accepts.current]
    split <;> rfl

/-- Two copies of one document with trees that are the same up to their times leave the same
statuses up to their times. -/
theorem Ends.agree {document : Document} {sizing sizing' : Sizing}
    (ends : (copying document sizing).Ends tree before (.ok ()) outcome documents)
    (ends' : (copying document sizing').Ends tree' before (.ok ()) outcome' documents')
    (trees : tree.timeless = tree'.timeless) (key : QualifiedName) :
    (documents.get? key).map (fun version => version.status.map Status.timeless) =
      (documents'.get? key).map fun version => version.status.map Status.timeless := by
  have forgets : ∀ version? : Option Document,
      version?.map (fun version => version.status.map Status.timeless) =
        (version?.map Document.status).map (Option.map Status.timeless) := by
    intro version?
    cases version? <;> rfl
  rw [forgets, forgets]
  rcases ends.leaves rfl with ⟨same, rejects⟩ | ⟨latest, token, now, found, accepts, same⟩ <;>
    rcases ends'.leaves rfl with ⟨same', rejects'⟩ | ⟨latest', token', now', found', accepts', same'⟩
  · rw [same, same']
    rfl
  · exact absurd ⟨accepts'.living, accepts'.copies, accepts'.snapshot, accepts'.current⟩
      (rejects latest' token' found')
  · exact absurd ⟨accepts.living, accepts.copies, accepts.snapshot, accepts.current⟩
      (rejects' latest token found)
  · obtain rfl : latest = latest' := Option.some.inj (found.symm.trans found')
    rw [same key, same' key]
    have own : (copying document sizing').document.key = (copying document sizing).document.key :=
      rfl
    rw [own]
    split
    · exact congrArg (fun status => some (some status)) (timeless_commitStatus now now' rfl trees)
    · rfl

end Ends

/-- An execution of a copy that has made all its jobs. -/
structure Fulfils (plan : SyncPlan) (before : Backends) (run : ActiveRun)
    (outcome : Except SyncError RunOutcome) (after : Backends) : Prop where
  ends : plan.Ends run.tree before.documents (.ok ()) outcome after.documents
  /-- The tree is made of one completion for each job, with the result that its verdict says. -/
  tree : ∃ completions,
    run.tree = recordAll plan.document.datasetName completions plan.document.files ∧
      (completions.map Completion.job).Perm (plan.agenda before).jobs ∧
      ∀ completion ∈ completions, completion.result = plan.verdict before completion.job
  buckets : ∀ bucket, after.objects.HasBucket bucket ↔
    (plan.agenda before).last.objects.HasBucket bucket
  objects : ∀ place, after.objects.Holds place ↔ before.objects.Holds place ∨
    ∃ job ∈ (plan.agenda before).jobs, plan.verdict before job = .ok () ∧ job.destination = place

/-- An execution of a copy whose jobs could not all be made. -/
structure GivesUp (plan : SyncPlan) (before : Backends) (error : SyncError)
    (outcome : Except SyncError RunOutcome) (after : Backends) : Prop where
  fails : outcome = .error error
  /-- It has written no document. -/
  documents : after.documents = before.documents
  /-- It has made the bucket of the version, if it came to that. -/
  buckets : ∀ bucket, after.objects.HasBucket bucket ↔
    (plan.agenda before).last.objects.HasBucket bucket
  keeps : ∀ place, before.objects.Holds place → after.objects.Holds place
  /-- It may have carried out some of the jobs that it could make. -/
  adds : ∀ place, after.objects.Holds place → before.objects.Holds place ∨
    ∃ job ∈ (plan.agenda before).jobs, job.destination = place

section Execution

variable {plan : SyncPlan} {before after : Backends} {run : ActiveRun}
  {outcome : Except SyncError RunOutcome}

/-- Every execution of a copy comes to the end that its agenda has told before. -/
theorem execution_cases (copies : plan.mode = .copy) (separate : plan.Separate before)
    (reached : ReflTransGen ActiveRun.Move (.start plan false, before) (run, after))
    (ended : run.outcome? = some outcome) :
    match (plan.agenda before).result with
    | .ok () => plan.Fulfils before run outcome after
    | .error error => plan.GivesUp before error outcome after := by
  obtain ⟨history, pool, middle, produced, working, done, performs⟩ := cases_of_moves reached ended
  obtain ⟨ends, objects⟩ := ends_of_performs performs
  obtain ⟨-, result, ground⟩ := working.agenda_ended copies done
  rw [working.documents] at ends
  have buckets : ∀ bucket, after.objects.HasBucket bucket ↔
      (plan.agenda before).last.objects.HasBucket bucket := fun bucket => by
    rw [objects]
    exact ((Backends.ground_eq_iff.mp ground).2.2.2 bucket).symm
  rw [result]
  cases produced with
  | ok =>
    obtain ⟨perm, results, holds⟩ := working.fulfilled copies separate done
    exact ⟨ends, ⟨completions history, working.tree_eq, perm, results⟩, buckets, objects ▸ holds⟩
  | error error =>
    generalize same : after.documents = documents at ends
    cases ends
    refine ⟨rfl, same, buckets, fun place held => ?_, fun place held => ?_⟩
    · rw [objects]
      exact working.keeps copies held
    · rw [objects] at held
      exact working.holds_within copies separate held

end Execution

/-- What two executions of a copy leave is the same up to times: the trees of the runs, the
statuses of all documents, and the keys of all buckets. -/
structure Agree (run run' : ActiveRun) (after after' : Backends) : Prop where
  trees : run.tree.timeless = run'.tree.timeless
  statuses : ∀ key,
    (after.documents.get? key).map (fun version => version.status.map Status.timeless) =
      (after'.documents.get? key).map fun version => version.status.map Status.timeless
  keys : ∀ bucket, after.objects.keys? bucket = after'.objects.keys? bucket

/-- Executions of one copy, whatever the limits of their pools and the order of their moves: if the
jobs can all be made, what they leave is the same up to times; if not, all of them give up with one
error. -/
theorem executions_agree {document : Document} {sizing sizing' : Sizing}
    {before after after' : Backends} {run run' : ActiveRun}
    {outcome outcome' : Except SyncError RunOutcome} (tidy : document.files.Tidy)
    (separate : (copying document sizing).Separate before)
    (reached : ReflTransGen ActiveRun.Move (.start (copying document sizing) false, before)
      (run, after)) (ended : run.outcome? = some outcome)
    (reached' : ReflTransGen ActiveRun.Move (.start (copying document sizing') false, before)
      (run', after')) (ended' : run'.outcome? = some outcome') :
    match ((copying document sizing).agenda before).result with
    | .ok () => Agree run run' after after'
    | .error error => (copying document sizing).GivesUp before error outcome after ∧
        (copying document sizing).GivesUp before error outcome' after' := by
  have agendas := agenda_sizing document sizing' sizing before
  have separate' : (copying document sizing').Separate before := by
    rw [Separate, agendas]
    exact separate
  have first := execution_cases rfl separate reached ended
  have second := execution_cases rfl separate' reached' ended'
  rw [agendas] at second
  cases produced : ((copying document sizing).agenda before).result with
  | error error =>
    rw [produced] at first second
    exact ⟨first, second.fails, second.documents, agendas ▸ second.buckets, second.keeps,
      agendas ▸ second.adds⟩
  | ok =>
    rw [produced] at first second
    obtain ⟨completions, tree, perm, results⟩ := first.tree
    obtain ⟨completions', tree', perm', results'⟩ := second.tree
    rw [agendas] at perm'
    have trees : run.tree.timeless = run'.tree.timeless := by
      have all := (delivers_produce (copying document sizing)).agenda produced
      rw [tree, tree']
      refine timeless_recordAll tidy.toAddressable ?_ (perm.trans perm'.symm) results results'
      exact (perm.map _).nodup_iff.mpr (all.attributions_nodup rfl tidy)
    refine ⟨trees, first.ends.agree second.ends trees, ObjectStore.keys?_congr
      (fun bucket => ?_) fun place => ?_⟩
    · rw [first.buckets, second.buckets, agendas]
    · rw [first.objects, second.objects, agendas]
      rfl

/-- A document of which the files of two sources are to be copied. -/
def twoSources : Document :=
  { metadata := { Metadata.empty with
      name := some "ds-v1", ns := some "team-a", resourceVersion := some "1" }
    spec := { dataset := { apiGroup := none, kind := "Dataset", name := "ds", ns := none }
              version := "v1", inheritedFrom := none, released := false, fileGroups := [] }
    status := some {
      conditions := []
      files := [
        { source := FileTree.declaredReference ⟨"team-a", "x"⟩
          files := [.blank "a.txt" .processing, .blank "b.txt" .processing] },
        { source := FileTree.declaredReference ⟨"team-a", "y"⟩
          files := [.blank "c.txt" .processing] }] } }

/-- The tree of the document is well formed. -/
theorem twoSources_formed : twoSources.files.WellFormed where
  inOrder := ⟨by decide, by decide⟩
  apart := by decide
  marked := by decide

/-- A store in which the files of the first source lie. Some of the sources do not exist. -/
def twoBackends (missing : List String) : Backends :=
  { objects := [("raw", "a.txt"), ("raw", "b.txt")].foldl
      (fun store object => store.putObject object.1 object.2) (ObjectStore.empty.putBucket "team-a")
    documents := (DocumentStore.empty.insert twoSources).2
    table := ⟨(OrderedMap.empty.insert "x" "raw").insert "y" "raw", .ofList missing⟩
    now := "2024-05-01T00:00:00+00:00" }

/-- One worker and five workers leave the same, though the file of the second source is not there. -/
theorem twoSources_agree : ∃ run run' after after',
    ReflTransGen ActiveRun.Move
      (.start (copying twoSources ⟨1, 1⟩) false, twoBackends []) (run, after) ∧
    ReflTransGen ActiveRun.Move
      (.start (copying twoSources .standard) false, twoBackends []) (run', after') ∧
    Agree run run' after after' := by
  obtain ⟨run, reached, ended⟩ := (copying twoSources ⟨1, 1⟩).runs_drive (twoBackends [])
  obtain ⟨run', reached', ended'⟩ := (copying twoSources .standard).runs_drive (twoBackends [])
  have separate : (copying twoSources ⟨1, 1⟩).Separate (twoBackends []) := by
    unfold Separate
    decide
  have made : ((copying twoSources ⟨1, 1⟩).agenda (twoBackends [])).result = .ok () := rfl
  have agree := executions_agree twoSources_formed.tidy separate reached ended reached' ended'
  rw [made] at agree
  exact ⟨run, run', _, _, reached, reached', agree⟩

/-- If the second source does not exist, one worker has copied the first file when that is found
out, while five workers with a long queue have copied nothing. -/
theorem missing_source_disagrees :
    ∃ (document : Document) (sizing sizing' : Sizing) (before after after' : Backends)
      (run run' : ActiveRun) (outcome outcome' : Except SyncError RunOutcome) (bucket : String),
      document.files.WellFormed ∧ (copying document sizing).Separate before ∧
      ReflTransGen ActiveRun.Move (.start (copying document sizing) false, before) (run, after) ∧
      run.outcome? = some outcome ∧
      ReflTransGen ActiveRun.Move (.start (copying document sizing') false, before)
        (run', after') ∧
      run'.outcome? = some outcome' ∧
      after.objects.keys? bucket ≠ after'.objects.keys? bucket := by
  obtain ⟨run, reached, ended⟩ := (copying twoSources ⟨1, 1⟩).runs_drive (twoBackends ["y"])
  obtain ⟨run', reached', ended'⟩ := (copying twoSources .standard).runs_drive (twoBackends ["y"])
  have separate : (copying twoSources ⟨1, 1⟩).Separate (twoBackends ["y"]) := by
    unfold Separate
    decide
  refine ⟨twoSources, ⟨1, 1⟩, .standard, twoBackends ["y"], _, _, run, run', _, _, "team-a",
    twoSources_formed, separate, reached, ended, reached', ended', ?_⟩
  have copied : ((copying twoSources ⟨1, 1⟩).drive alone false
      (twoBackends ["y"])).2.objects.keys? "team-a" = some ["dataset/ds/v1/a.txt"] := rfl
  have nothing : ((copying twoSources .standard).drive alone false
      (twoBackends ["y"])).2.objects.keys? "team-a" = some [] := rfl
  rw [copied, nothing]
  simp

end SyncPlan

end DatasetSync
