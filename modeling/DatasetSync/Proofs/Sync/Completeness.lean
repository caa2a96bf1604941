import DatasetSync.Proofs.Sync.Reporting

/-!
# A copy that finishes has carried out everything

A copy that commits, or finds nothing to commit, has made every job of its document. It has carried
out each of them once, by one call on the object store, and has handed over once what that call was
answered. The status that it has written, or has found stored already, holds the tree that these
answers make of the tree of the document, and its report on readiness says of that tree what its
files say.

Nothing is assumed of the limits of the pool, of the order of the moves, of what others do in
between, or of the moment at which the run is cancelled: a course may be cancelled in any of its
turns, also while the run is being concluded. What a single file becomes is said for trees that are
well formed; that the tree is the fold of the completions needs no such condition.
-/

namespace DatasetSync

/-- A report that tells how far a tree has come holds exactly if all files of the tree have been
synced or skipped. Otherwise one of them has failed or is still on its way, and in both cases the
report is that the version is not ready. -/
theorem Condition.Tells.holds_iff {condition : Condition} {tree : FileTree}
    (tells : condition.Tells tree) :
    condition.holds = true ↔
      ∀ file ∈ tree.allFiles, file.phase = .succeeded ∨ file.phase = .skipped := by
  have truth : condition.holds = true ↔ condition.status = .true := by simp [holds]
  rw [truth]
  constructor
  · intro positive
    by_contra unsettled
    by_cases failed : ∃ file ∈ tree.allFiles, file.phase = .failed
    · exact absurd (positive.symm.trans (tells.failure.mpr failed).1) (by decide)
    · exact absurd (positive.symm.trans (tells.syncing.mpr ⟨unsettled, failed⟩).1) (by decide)
  · exact fun settled => (tells.success.mpr settled).1

namespace SyncPlan

open Pool

variable {plan : SyncPlan} {others : Backends → Backends → Prop} {history : List Turn}
  {turn : Turn} {run : ActiveRun} {tree : FileTree} {pool : SyncPool} {first backends : Backends}
  {attempt : Attempt}

/-- A run has carried out all jobs of its plan, each once, and the tree is what their completions
make of the tree of the document. -/
structure CarriesOut (plan : SyncPlan) (moments : List Moment) (tree : FileTree)
    (jobs : List SyncJob) : Prop where
  /-- These are the jobs of all files of the plan, in stored order. -/
  all : plan.MakesAll plan.groups jobs
  /-- Each of them was carried out once, and nothing else was. -/
  once : ((attempts moments).map Attempt.job).Perm jobs
  /-- Each result was handed over once, and nothing else was. -/
  handed : (attempts moments).map (fun attempt => (attempt.job, attempt.result)) =
    (completions moments).map fun completion => (completion.job, completion.result)
  folded : tree = recordAll plan.document.datasetName (completions moments) plan.document.files

/-- A pool that nobody ever cancelled and that has come to its end has carried out all jobs. -/
theorem Working.carriesOut {moments : List Moment}
    (working : plan.Working others first moments pool tree backends)
    (ended : pool.ended? = some (.ok ())) : ∃ jobs, plan.CarriesOut moments tree jobs := by
  obtain ⟨jobs, all, perm, handed⟩ := working.complete ended
  exact ⟨jobs, all, jobs_of_handed handed ▸ perm, handed, working.tree_eq⟩

/-- A job was carried out in a turn of a run by one call: the object store was asked to copy from
the source of the job to its destination. What it answered is the result of the job, and what the
turn has left of the objects is what that call has made of them. -/
def CopiedIn (history : List Turn) (attempt : Attempt) : Prop :=
  ∃ turn ∈ history, ∃ origin, turn.before = attempt.backends ∧
    attempt.job.source = some origin ∧
    turn.before.objects.answer (.copyObject attempt.job.destination origin) =
      (attempt.result, turn.after.objects)

/-- What was carried out in some turn stays carried out while the run takes further turns. -/
theorem CopiedIn.further (copied : CopiedIn history attempt) :
    CopiedIn (history ++ [turn]) attempt := by
  obtain ⟨earlier, member, rest⟩ := copied
  exact ⟨earlier, List.mem_append_left _ member, rest⟩

/-- Every job that a copy has carried out, it has carried out by one call that copies. The induction
is on the course; only a turn in which a job ends adds an attempt, and that turn is the one. -/
theorem Course.copiedIn (copies : plan.mode = .copy)
    (course : plan.Course others first history run backends) :
    ∀ attempt ∈ attempts (moments history), CopiedIn history attempt := by
  induction course with
  | start => simp [moments, attempts]
  | conclude past ended ih => exact ih
  | change past change ih => exact ih
  | call past ih | cancel past ih =>
    rw [moments_append, Turn.moment?, Option.toList_none, List.append_nil]
    exact fun attempt member => (ih attempt member).further
  | work past move effect ih =>
    intro attempt member
    rw [moments_append, Turn.moment?, Option.toList_some, attempts_append] at member
    rcases List.mem_append.mp member with former | new
    · exact (ih attempt former).further
    · cases effect with
      | executed tree performed =>
        obtain rfl := List.mem_singleton.mp new
        obtain ⟨-, origin, copied, answered⟩ :=
          executes_copy copies (past.reachable rfl) move performed
        cases answered
        exact ⟨_, List.mem_concat_self, origin, rfl, copied, rfl⟩
      | internal | called | delivered => cases new

/-- A copy that commits, or finds nothing to commit, has carried out all jobs of its document, each
once and by one call that copies. The status that it has written, or has found where it has read,
reports on the tree that their completions make of the tree of the document: it holds that tree and
no other one, its first report on readiness says how far the files of that tree have come, and its
other reports are those of the version that the copy has read. If the tree of the document is well
formed, every file of it that was due is recorded as the answer to its own call demands, and every
other file is recorded as before.

This is so whenever the run is cancelled, and whatever others do. -/
theorem commits_all_jobs {document : Document} {sizing : Sizing} {result : RunOutcome}
    (course : (copying document sizing).Course others first history run backends)
    (ended : run.outcome? = some (.ok result))
    (finished : result = .unchanged ∨ ∃ ready, result = .committed ready) :
    ∃ jobs latest status condition,
      (copying document sizing).CarriesOut (moments history) run.tree jobs ∧
      (∀ attempt ∈ attempts (moments history), CopiedIn history attempt) ∧
      (copying document sizing).reading (some latest) ∈ exchanges history ∧
      ((result = .unchanged ∧ latest.status = some status) ∨
        ∃ token, result = .committed condition.holds ∧
          (copying document sizing).writing token status ∈ exchanges history) ∧
      status.files = run.tree ∧
      Reports { latest with status := some status } latest run.tree condition ∧
      (document.files.WellFormed → ∀ i j source file, document.files.Places i j source file →
        (¬ file.Due → run.tree.Places i j source file) ∧
        (file.Due → ∃ attempt now, (copying document sizing).Settles (moments history) run.tree
          i j source file attempt now)) := by
  obtain ⟨ending, pool, earlier, working, complete⟩ := course.ending_of_finished ended finished
  obtain ⟨jobs, carriesOut⟩ := working.carriesOut complete
  have copies : (copying document sizing).mode = .copy := rfl
  have copied := course.copiedIn copies
  have files : document.files.WellFormed → ∀ i j source file,
      document.files.Places i j source file →
        (¬ file.Due → run.tree.Places i j source file) ∧
        (file.Due → ∃ attempt now, (copying document sizing).Settles (moments history) run.tree
          i j source file attempt now) := by
    intro formed i j source file places
    refine ⟨working.places_idle formed complete places, fun due => ?_⟩
    obtain ⟨attempt, now, settles, -⟩ := working.settles_due formed complete places due
    exact ⟨attempt, now, settles⟩
  obtain ⟨latest, token, now, -, made⟩ := ending.finished finished
  obtain ⟨condition, reports, ready⟩ :=
    @reports_of_commitStatus { latest with status := some (commitStatus latest.status run.tree now) }
      latest run.tree now rfl
  refine ⟨jobs, latest, commitStatus latest.status run.tree now, condition, carriesOut, copied, ?_,
    ?_, rfl, reports, files⟩
  · rcases made with ⟨-, trail, -⟩ | ⟨-, trail⟩ <;> simp [trail]
  · rcases made with ⟨rfl, -, same⟩ | ⟨rfl, trail⟩
    · exact .inl ⟨rfl, same⟩
    · exact .inr ⟨token, by rw [ready], by simp [trail]⟩

/-- The copy of the one file, which is cancelled after it has read its document, commits
nevertheless. Its one file was copied well by a call of its own; the status that it has written
lists the file as synced and reports readiness. -/
theorem heldDocument_carried_out : ∃ (history : List Turn) (run : ActiveRun) (backends : Backends)
      (jobs : List SyncJob) (token : String) (status : Status) (attempt : Attempt),
    (copying heldDocument .standard).Course (· = ·) heldBackends history run backends ∧
      run.outcome? = some (.ok (.committed true)) ∧
      (copying heldDocument .standard).CarriesOut (moments history) run.tree jobs ∧
      attempt ∈ attempts (moments history) ∧ attempt.result = .ok () ∧ CopiedIn history attempt ∧
      (copying heldDocument .standard).writing token status ∈ exchanges history ∧
      (∃ condition, status.ready? = some condition ∧ condition.holds = true) ∧
      ∃ file, status.files.Places 0 0 (FileTree.declaredReference ⟨"team-a", "raw"⟩) file ∧
        file.path = "a.txt" ∧ file.phase = .succeeded := by
  obtain ⟨history, run, backends, course, ended⟩ := heldDocument_committed
  obtain ⟨jobs, latest, status, condition, carriesOut, copied, -, finished, holds, reports, files⟩ :=
    commits_all_jobs course ended (.inr ⟨true, rfl⟩)
  rcases finished with ⟨impossible, -⟩ | ⟨token, same, written⟩
  · cases impossible
  have ready : condition.holds = true := (RunOutcome.committed.inj same).symm
  have places : heldDocument.files.Places 0 0 (FileTree.declaredReference ⟨"team-a", "raw"⟩)
      (.blank "a.txt" .processing) := ⟨_, rfl, rfl, rfl⟩
  obtain ⟨attempt, now, settles⟩ := (files dueDocument_formed 0 0 _ _ places).2 ⟨rfl, by decide⟩
  have listed : (FileRecord.settle (.blank "a.txt" .processing) now attempt.result) ∈
      run.tree.allFiles := settles.recorded.mem_allFiles
  have succeeded : attempt.result = .ok () := by
    cases outcome : attempt.result with
    | ok => rfl
    | error error =>
      rw [outcome] at listed
      have settled := reports.tells.holds_iff.mp ready _ listed
      simp [FileRecord.settle] at settled
  refine ⟨history, run, backends, jobs, token, status, attempt, course, ended, carriesOut,
    settles.attempted, succeeded, copied attempt settles.attempted, written,
    ⟨condition, reports.first, ready⟩, _, holds ▸ settles.recorded,
    FileRecord.path_settle _ _ _, ?_⟩
  rw [succeeded]
  rfl

end SyncPlan

end DatasetSync
