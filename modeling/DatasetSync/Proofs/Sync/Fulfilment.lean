import DatasetSync.Proofs.Sync.Agenda
import DatasetSync.Proofs.Sync.CopyRun

/-!
# What becomes of an agenda

The jobs of a copy are answered by the store as they find it, some of them after others have
changed it. Still each answer can be told before the run begins, if no job copies from where
another one copies to: then a job finds its source exactly if it was there at the start, and
nothing else that matters to it changes but that the bucket of the version is made in time. This
answer is the verdict of the job. At its end the run has carried out the jobs of its agenda, each
as its verdict says, and the objects are those of the start and those of the jobs that ended well.

Between the moves of the run only time passes. Nothing is assumed of the limits of the pool and of
the order of the moves.
-/

namespace DatasetSync

namespace ObjectStore

/-- A copy that is answered well has found its source. -/
theorem holds_of_answer {store : ObjectStore} {destination source : ObjectAddress}
    (ok : (store.answer (.copyObject destination source)).1 = .ok ()) : store.Holds source := by
  change (settle _ (copyObject _ destination source)).1 = .ok () at ok
  cases copied : ({ store with log := store.log ++ [.copyObject destination source] } :
      ObjectStore).copyObject destination source with
  | error error =>
    rw [copied] at ok
    cases ok
  | ok after =>
    have held := (copyObject_ok copied).1
    exact held

/-- A bucket that was added is there. -/
theorem hasBucket_putBucket (store : ObjectStore) (bucket : String) :
    (store.putBucket bucket).HasBucket bucket := by
  unfold HasBucket putBucket OrderedMap.alter
  simp

end ObjectStore

/-- A survey takes no bucket away. It may make one, and whoever has found a bucket finds it
still. -/
theorem Call.Surveys.hasBucket {call : Call} {backends : Backends} {bucket : String}
    (surveys : call.Surveys) (there : backends.objects.HasBucket bucket) :
    (backends.answer call).2.objects.HasBucket bucket := by
  cases call with
  | object made =>
    cases made with
    | makeBucket own =>
      exact ((backends.objects.account_makeBucket own).buckets bucket).mpr (.inl there)
    | bucketExists => exact there
    | copyObject | removeObject | listObjects => cases surveys
  | document | resolve | clock => exact there

namespace SyncPlan

open Pool

variable {plan : SyncPlan} {history : List Moment} {pool : SyncPool} {tree : FileTree}
  {first backends : Backends} {job : SyncJob} {place : ObjectAddress}

/-- The agenda of a plan among given surroundings. -/
def agenda (plan : SyncPlan) (first : Backends) : Agenda SyncJob SyncError :=
  Pool.agenda plan.produce first

/-- The verdict on a job: how it would end at the start, but for the bucket of the version. -/
def verdict (plan : SyncPlan) (first : Backends) (job : SyncJob) : Except StorageError Unit :=
  (job.perform.perform Backends.answer
    { first with objects := first.objects.putBucket plan.bucket }).1

/-- No job on the agenda copies from where another one copies to. -/
def Separate (plan : SyncPlan) (first : Backends) : Prop :=
  ∀ job ∈ (plan.agenda first).jobs, ∀ other ∈ (plan.agenda first).jobs,
    other ≠ job → job.source ≠ some other.destination

section Working

/-- The producer of a run that is at work asks for nothing but the ground, wherever on its way it
is. -/
theorem Working.surveys (working : plan.Working Ticks first history pool tree backends) :
    pool.producer.AsksOnly Production.Surveys := by
  induction working with
  | start => exact plan.produceGroups_surveys plan.groups false
  | change past change ih => exact ih
  | work past move effect ih => exact move.producer_asks ih

/-- A copy never leaves its agenda. Calls of its workers leave the ground as it is, and calls of the
producer are those that the agenda has foreseen. -/
theorem Working.follows (copies : plan.mode = .copy)
    (working : plan.Working Ticks first history pool tree backends) :
    pool.Follows (plan.agenda first) backends := by
  induction working with
  | start => exact follows_initial plan.produce false first
  | change past change ih =>
    obtain ⟨now, rfl⟩ := change
    exact ih.congr past.surveys rfl
  | work past move effect ih =>
    obtain ⟨reachable, uncancelled⟩ := past.reachable
    refine ih.step past.surveys uncancelled move effect.inside (fun call answer same => ?_)
      fun uncalled => ?_
    · subst same
      cases effect
      rfl
    · cases effect with
      | internal | delivered => rfl
      | called call => exact absurd rfl (uncalled _ _)
      | executed tree performed =>
        obtain ⟨-, source, -, answered⟩ := executes_copy copies reachable move performed
        cases answered
        exact Backends.ground_copyObject.symm

/-- A job that was accepted is on the agenda, which was fixed before the first move. -/
theorem Working.mem_agenda (copies : plan.mode = .copy)
    (working : plan.Working Ticks first history pool tree backends)
    (accepted : job ∈ pool.floor.accepted) : job ∈ (plan.agenda first).jobs := by
  obtain ⟨handed, same, alike⟩ := working.follows copies
  rw [Agenda.jobs, alike.handed, Agenda.handed_after, List.map_append, same]
  exact List.mem_append_left _ accepted

/-- Once a job was accepted, the bucket of the version is there. The job that is handed over is
listed with the ground of that moment, and on this ground the bucket is known to be there. -/
theorem Working.hasBucket (copies : plan.mode = .copy)
    (working : plan.Working Ticks first history pool tree backends)
    (some : pool.floor.accepted ≠ []) : backends.objects.HasBucket plan.bucket := by
  induction working with
  | start => exact absurd rfl some
  | change past change ih =>
    obtain ⟨now, rfl⟩ := change
    exact ih some
  | @work history pool pool' tree tree' backends backends' event past move effect ih =>
    obtain ⟨reachable, -⟩ := past.reachable
    have surveys := past.surveys
    obtain ⟨handed, -, alike⟩ := past.follows copies
    cases effect with
    | internal =>
      cases move with
      | enqueue job next room =>
        have listed : (job, backends.ground) ∈ (plan.agenda first).handed := by
          rw [alike.handed, Pool.agenda, Agenda.handed_after, Agenda.handed_after]
          simp
        exact Backends.hasBucket_ground.mp
          (hasBucket_produceGroups plan.groups false first (by simp) _ listed)
      | start => exact ih (by simpa using some)
      | observe | refuse | discard => exact ih some
    | called call =>
      cases move with
      | call call next answer => exact Call.Surveys.hasBucket surveys.1 (ih some)
    | delivered =>
      cases move with
      | deliver => exact ih (by simpa using some)
    | executed tree performed =>
      obtain ⟨-, source, -, answered⟩ := executes_copy copies reachable move performed
      cases answered
      refine ((Backends.ground_eq_iff.mp Backends.ground_copyObject).2.2.2 _).mpr (ih ?_)
      cases move with
      | finish => simpa using some

/-- How the objects stand in a copy: the jobs that were carried out have ended as their verdicts
say, and the objects are those of the start and those that were copied well. -/
structure Stands (plan : SyncPlan) (first : Backends) (attempts : List Attempt)
    (objects : ObjectStore) : Prop where
  failingKeys : objects.failingKeys = first.objects.failingKeys
  failingBuckets : objects.failingBuckets = first.objects.failingBuckets
  verdicts : ∀ attempt ∈ attempts, attempt.result = plan.verdict first attempt.job
  holds : ∀ place, objects.Holds place ↔ first.objects.Holds place ∨
    ∃ attempt ∈ attempts, attempt.result = .ok () ∧ attempt.job.destination = place

/-- The verdict on a job is the answer to its copy in the store of the start, with the bucket of the
version in it. -/
theorem verdict_eq {source : ObjectAddress} (copied : job.source = some source) :
    plan.verdict first job =
      ((first.objects.putBucket plan.bucket).answer (.copyObject job.destination source)).1 := by
  rw [verdict, perform_copy copied]

/-- The places that the jobs of a plan copy to lie in its bucket. -/
theorem bucket_of_accepted (reachable : Reachable plan.sizing (.initial plan.produce false) pool)
    (accepted : job ∈ pool.floor.accepted) : job.destination.bucket = plan.bucket := by
  obtain ⟨i, j, group, file, location, -, -, -, made⟩ :=
    (reachable.accepted plan.produce_makes).2 job accepted
  rw [(jobFor?_eq_some_iff.mp made).2.2]
  rfl

/-- A job that is carried out ends as its verdict says. What was copied to its source since the
start was copied there by this job itself, which has found the source before; so the source is there
exactly if it was there at the start. -/
theorem Stands.verdict_of_copied {source : ObjectAddress} (copies : plan.mode = .copy)
    (separate : plan.Separate first)
    (working : plan.Working Ticks first history pool tree backends)
    (stands : plan.Stands first (attempts history) backends.objects)
    (accepted : job ∈ pool.floor.accepted) (copied : job.source = some source) :
    (backends.objects.answer (.copyObject job.destination source)).1 = plan.verdict first job := by
  obtain ⟨reachable, -⟩ := working.reachable
  rw [verdict_eq copied]
  refine ObjectStore.copyObject_congr stands.failingKeys stands.failingBuckets ?_ ?_
  · rw [ObjectStore.holds_putBucket, stands.holds]
    refine or_iff_left_of_imp ?_
    rintro ⟨attempt, attempted, ok, same⟩
    have listed := working.mem_agenda copies accepted
    have listed' := working.mem_agenda copies (working.accepted_of_attempt attempted)
    by_cases own : attempt.job = job
    · have found := stands.verdicts attempt attempted
      rw [ok, own, verdict_eq copied] at found
      exact ObjectStore.holds_putBucket.mp (ObjectStore.holds_of_answer found.symm)
    · exact absurd (same ▸ copied) (separate job listed attempt.job listed' own)
  · rw [bucket_of_accepted reachable accepted]
    refine iff_of_true (working.hasBucket copies (List.ne_nil_of_mem accepted)) ?_
    exact ObjectStore.hasBucket_putBucket _ _

/-- Every move of a copy keeps how its objects stand. Only a job that is carried out changes
objects, and it ends as its verdict says. -/
theorem Working.stands (copies : plan.mode = .copy) (separate : plan.Separate first)
    (working : plan.Working Ticks first history pool tree backends) :
    plan.Stands first (attempts history) backends.objects := by
  induction working with
  | start => exact ⟨rfl, rfl, by simp [attempts], by simp [attempts]⟩
  | change past change ih =>
    obtain ⟨now, rfl⟩ := change
    exact ih
  | @work history pool pool' tree tree' backends backends' event past move effect ih =>
    obtain ⟨reachable, -⟩ := past.reachable
    rw [attempts_append]
    cases effect with
    | internal | delivered =>
      refine (?_ : plan.Stands first _ backends.objects)
      simpa [Event.execution?] using ih
    | called call =>
      obtain ⟨keys, buckets⟩ := Backends.refusals_answer call backends
      have loses := (reachable.accepted plan.produce_within).1
      cases move with
      | call call next answer =>
        refine ⟨keys.trans ih.failingKeys, buckets.trans ih.failingBuckets, ?_, fun place => ?_⟩
        · simpa [Event.execution?] using ih.verdicts
        · rw [(loses.1.2.loses backends).holds, not_false_eq_true, and_true]
          simpa [Event.execution?] using ih.holds place
    | @executed job result _ _ _ performed =>
      obtain ⟨accepted, source, copied, answered⟩ :=
        executes_copy copies reachable move performed
      have verdict := ih.verdict_of_copied copies separate past accepted copied
      cases answered
      obtain ⟨keys, buckets⟩ :=
        Backends.refusals_answer (.object (.copyObject job.destination source)) backends
      refine ⟨keys.trans ih.failingKeys, buckets.trans ih.failingBuckets, ?_, fun place => ?_⟩
      · intro attempt attempted
        rcases List.mem_append.mp attempted with former | new
        · exact ih.verdicts attempt former
        · obtain rfl := List.mem_singleton.mp new
          exact verdict
      · have law := backends.objects.holds_copyObject job.destination source place
        rw [ih.holds place] at law
        refine law.trans ?_
        simp [Event.execution?, or_and_right, exists_or, or_assoc, eq_comm]

end Working

section Ended

variable {produced : Except SyncError Unit}

/-- A copy that has come to its end has come to the end of its agenda, and leaves the ground that
the agenda leaves. -/
theorem Working.agenda_ended (copies : plan.mode = .copy)
    (working : plan.Working Ticks first history pool tree backends)
    (ended : pool.ended? = some produced) :
    (plan.agenda first).jobs = pool.floor.accepted ∧ (plan.agenda first).result = produced ∧
      (plan.agenda first).last.ground = backends.ground := by
  obtain ⟨handed, same, alike⟩ := working.follows copies
  rw [State.producer_of_ended ended] at alike
  refine ⟨?_, alike.result, alike.last⟩
  rw [Agenda.jobs, alike.handed, ← same]
  simp [Pool.agenda]

/-- Whatever a copy has done, the objects are those of the start and some that its agenda lists. -/
theorem Working.holds_within (copies : plan.mode = .copy) (separate : plan.Separate first)
    (working : plan.Working Ticks first history pool tree backends)
    (held : backends.objects.Holds place) : first.objects.Holds place ∨
      ∃ job ∈ (plan.agenda first).jobs, job.destination = place := by
  refine ((working.stands copies separate).holds place).mp held |>.imp_right ?_
  rintro ⟨attempt, attempted, -, same⟩
  exact ⟨attempt.job, working.mem_agenda copies (working.accepted_of_attempt attempted), same⟩

/-- A copy that has come to a good end has carried out the jobs of its agenda, each as its verdict
says, and has handed over what came of them. -/
theorem Working.fulfilled (copies : plan.mode = .copy) (separate : plan.Separate first)
    (working : plan.Working Ticks first history pool tree backends)
    (ended : pool.ended? = some (.ok ())) :
    ((completions history).map Completion.job).Perm (plan.agenda first).jobs ∧
      (∀ completion ∈ completions history,
        completion.result = plan.verdict first completion.job) ∧
      ∀ place, backends.objects.Holds place ↔ first.objects.Holds place ∨
        ∃ job ∈ (plan.agenda first).jobs, plan.verdict first job = .ok () ∧
          job.destination = place := by
  obtain ⟨reachable, uncancelled⟩ := working.reachable
  obtain ⟨conserved, going⟩ := reachable.honors plan.delivers_produce
  obtain ⟨kept, -⟩ := going (State.going_of_ended ended uncancelled)
  obtain ⟨-, -, -, carried⟩ := working.complete ended
  have stands := working.stands copies separate
  have perm : ((completions history).map Completion.job).Perm (plan.agenda first).jobs := by
    have delivered := State.delivered_perm ended conserved kept
    rw [← working.delivered, List.map_map] at delivered
    rw [(working.agenda_ended copies ended).1]
    exact delivered
  have verdicts : ∀ attempt ∈ attempts history,
      attempt.result = plan.verdict first attempt.job := stands.verdicts
  refine ⟨perm, fun completion handed => ?_, fun place => (stands.holds place).trans ?_⟩
  · obtain ⟨attempt, attempted, same⟩ : ∃ attempt ∈ attempts history,
        (attempt.job, attempt.result) = (completion.job, completion.result) := by
      refine List.mem_map.mp ?_
      rw [carried]
      exact List.mem_map_of_mem handed
    obtain ⟨job, result⟩ := Prod.mk.inj same
    rw [← result, ← job, verdicts attempt attempted]
  · refine or_congr_right ⟨?_, ?_⟩
    · rintro ⟨attempt, attempted, ok, same⟩
      have listed : attempt.job ∈ (attempts history).map Attempt.job :=
        List.mem_map_of_mem attempted
      rw [jobs_of_handed carried, perm.mem_iff] at listed
      exact ⟨attempt.job, listed, (verdicts attempt attempted).symm.trans ok, same⟩
    · rintro ⟨job, listed, ok, same⟩
      rw [← perm.mem_iff, ← jobs_of_handed carried] at listed
      obtain ⟨attempt, attempted, rfl⟩ := List.mem_map.mp listed
      exact ⟨attempt, attempted, (verdicts attempt attempted).trans ok, same⟩

end Ended

/-- The limits of the pool do not matter to what a plan is to hand over. -/
theorem produceGroups_sizing (document : Document) (sizing sizing' : Sizing) (groups : FileTree)
    (checked : Bool) :
    (copying document sizing).produceGroups groups checked =
      (copying document sizing').produceGroups groups checked := by
  have files : ∀ location source files, (copying document sizing).produceFiles location source files
      = (copying document sizing').produceFiles location source files := by
    intro location source files
    induction files with
    | nil => rfl
    | cons file files ih =>
      unfold produceFiles
      rw [ih]
      rfl
  induction groups generalizing checked with
  | nil => rfl
  | cons group groups ih =>
    unfold produceGroups
    simp only [ih, files]
    rfl

/-- The sizes of the pool do not matter for the agenda, which is made of the groups of the document
and of what is found. -/
theorem agenda_sizing (document : Document) (sizing sizing' : Sizing) (first : Backends) :
    (copying document sizing).agenda first = (copying document sizing').agenda first := by
  rw [agenda, agenda, produce, produce, produceGroups_sizing document sizing sizing']
  rfl

end SyncPlan

end DatasetSync
