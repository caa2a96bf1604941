import DatasetSync.Proofs.Controller.Effect
import DatasetSync.Proofs.Store.Account
import DatasetSync.Proofs.Sync.Removal
import DatasetSync.Proofs.Sync.Sweep

/-!
# A removal and its bucket

A removal that has a group to go through checks its bucket before it hands over a job, and makes
the bucket if it is missing, although there is nothing to be removed from it then. Only a bucket
that cannot be used makes a removal give up. So a removal that nobody disturbs either gives up at
once, or it carries out all of its jobs in a bucket that is there; then the account of what it has
done is complete: which objects are gone, which removals have failed, and which bucket is new.
-/

namespace DatasetSync

namespace Pool

variable {J R E : Type} {sizing : Sizing} {before after : State J R E} {event : Event J R}

/-- What a producer has found out about its bucket. -/
inductive BucketStage where
  /-- It needs no bucket. -/
  | idle
  /-- It has yet to check the bucket, or to make it. -/
  | unknown
  /-- The bucket is there. -/
  | there
  /-- The bucket cannot be used. -/
  | refused

/-- A producer that is not stopped makes sure of its bucket before it hands over a job; where the
bucket cannot be used it gives up, and for no other reason. -/
inductive Secures (bucket : String) : BucketStage → Producer J E → Prop
  | idle : Secures bucket .idle (.done (.ok ()))
  | observe {stage : BucketStage} {next : Bool → Producer J E}
      (later : Secures bucket stage (next false)) : Secures bucket stage (.ask .isStopping next)
  | check {next : Except StorageError Bool → Producer J E}
      (refused : ∀ error, Secures bucket .refused (next (.error error)))
      (missing : Secures bucket .unknown (next (.ok false)))
      (there : Secures bucket .there (next (.ok true))) :
      Secures bucket .unknown (.ask (.call (.object (.bucketExists bucket))) next)
  | make {next : Except StorageError Unit → Producer J E}
      (refused : ∀ error, Secures bucket .refused (next (.error error)))
      (there : Secures bucket .there (next (.ok ()))) :
      Secures bucket .unknown (.ask (.call (.object (.makeBucket bucket))) next)
  | hand {job : J} {next : Bool → Producer J E} (later : Secures bucket .there (next true)) :
      Secures bucket .there (.ask (.queue job) next)
  | finish : Secures bucket .there (.done (.ok ()))
  | giveUp {error : E} : Secures bucket .refused (.done (.error error))

/-- A move without a call leaves it at what a producer has found out about its bucket, and a
producer whose bucket it does not know to be there hands over no job. -/
theorem Secures.step {bucket : String} {stage : BucketStage}
    (secures : Secures bucket stage before.producer) (move : Step sizing before event after)
    (uncancelled : before.cancelled = false) (inside : event ≠ .cancelled)
    (uncalled : ∀ call answer, event ≠ .called call answer) :
    Secures bucket stage after.producer ∧
      (stage ≠ .there → after.floor.accepted = before.floor.accepted) := by
  cases move with
  | call call next answer => exact absurd rfl (uncalled call answer)
  | observe next =>
    dsimp only at uncancelled
    subst uncancelled
    cases secures with
    | observe later => exact ⟨later, fun _ => rfl⟩
  | enqueue job next room =>
    cases secures with
    | hand later => exact ⟨later, fun unsafely => absurd rfl unsafely⟩
  | refuse => cases uncancelled
  | start | finish | deliver => exact ⟨secures, fun _ => by simp⟩
  | discard => exact ⟨secures, fun _ => rfl⟩
  | cancel => exact absurd rfl inside

/-- A producer asks for its bucket as long as it has not found out about it. The answer leads it
on, and tells the truth about the bucket; no other bucket is made. -/
theorem Secures.called {bucket : String} {stage : BucketStage} {call : Call}
    {next : call.Answer → Producer J E} (secures : Secures bucket stage (.ask (.call call) next))
    (backends : Backends) :
    stage = .unknown ∧ ∃ stage' added, Secures bucket stage' (next (backends.answer call).1) ∧
      stage' ≠ .idle ∧
      (stage' = .there → (backends.answer call).2.objects.HasBucket bucket ∧
        ¬ backends.objects.RefusesBucket bucket) ∧
      (stage' = .refused → backends.objects.RefusesBucket bucket) ∧
      backends.objects.Account (backends.answer call).2.objects (fun _ => False)
        (fun _ => False) added ∧ ∀ other, added other → other = bucket := by
  cases secures with
  | check refused missing there =>
    have account : backends.objects.Account
        (backends.objects.answer (.bucketExists bucket)).2 (fun _ => False) (fun _ => False)
        fun _ => False := ObjectStore.account_of_same rfl (by simp)
    have answered : (backends.answer (.object (.bucketExists bucket))).1 =
        (backends.objects.answer (.bucketExists bucket)).1 := rfl
    rw [answered]
    rcases backends.objects.bucketExists_cases bucket with ⟨refuses, error, same⟩ |
      ⟨usable, ⟨present, same⟩ | ⟨absent, same⟩⟩ <;> rw [same]
    · exact ⟨rfl, .refused, _, refused error, by simp, by simp, fun _ => refuses, account, by simp⟩
    · exact ⟨rfl, .there, _, there, by simp, fun _ => ⟨present, usable⟩, by simp, account,
        by simp⟩
    · exact ⟨rfl, .unknown, _, missing, by simp, by simp, by simp, account, by simp⟩
  | make refused there =>
    have account := backends.objects.account_makeBucket bucket
    have answered : (backends.answer (.object (.makeBucket bucket))).1 =
        (backends.objects.answer (.makeBucket bucket)).1 := rfl
    rw [answered]
    rcases backends.objects.makeBucket_cases bucket with ⟨refuses, error, same⟩ |
      ⟨usable, same⟩ <;> rw [same]
    · exact ⟨rfl, .refused, _, refused error, by simp, by simp, fun _ => refuses, account,
        fun _ added => added.1⟩
    · exact ⟨rfl, .there, _, there, by simp,
        fun _ => ⟨(account.buckets bucket).mpr (.inr ⟨rfl, usable⟩), usable⟩, by simp, account,
        fun _ added => added.1⟩

end Pool

namespace SyncPlan

open Pool

variable {plan : SyncPlan}

/-- Handing over the jobs of files needs no further look at the bucket. -/
theorem secures_produceFiles {bucket : String} {location : Option Location} {source : Reference}
    {next : Bool → Producer SyncJob SyncError} (files : List FileRecord)
    (after : Secures bucket .there (next true)) :
    Secures bucket .there ((plan.produceFiles location source files).bind next) := by
  induction files with
  | nil => exact after
  | cons file files ih =>
    refine .observe ?_
    cases made : plan.jobFor? location source file with
    | none => simpa [made] using ih
    | some job =>
      have handed : Secures bucket .there (((Producing.queue job).bind fun taken =>
          if taken = true then plan.produceFiles location source files
            else .done false).bind next) := .hand ih
      simpa [made] using handed

/-- Once its bucket is there, a removal hands over its jobs without asking for it again. -/
theorem secures_produceGroups {bucket : String} (removes : plan.mode = .remove)
    (groups : FileTree) : Secures bucket .there (plan.produceGroups groups true) := by
  induction groups with
  | nil => exact .finish
  | cons group groups ih =>
    have nowhere : plan.locate? group.source = .done (.ok none) := by simp [locate?, removes]
    have going : Secures bucket .there ((plan.produceFiles none group.source group.files).bind
        fun more => if more = true then plan.produceGroups groups true else .done (.ok ())) :=
      secures_produceFiles group.files ih
    refine .observe ?_
    rw [Program.done_bind, if_neg Bool.false_ne_true, prepare, nowhere]
    exact going

/-- A removal makes sure of its bucket before the first job, if it has a group to go through;
without one it asks for nothing. -/
theorem secures_produce (removes : plan.mode = .remove) :
    Secures plan.bucket (if plan.groups = [] then .idle else .unknown) plan.produce := by
  unfold produce
  cases plan.groups with
  | nil => exact .idle
  | cons group groups =>
    have nowhere : plan.locate? group.source = .done (.ok none) := by simp [locate?, removes]
    have going : Secures plan.bucket .there
        ((plan.produceFiles none group.source group.files).bind
          fun more => if more = true then plan.produceGroups groups true else .done (.ok ())) :=
      secures_produceFiles group.files (secures_produceGroups removes groups)
    refine .observe ?_
    simp only [prepare, nowhere, Bool.false_eq_true, if_false, Program.bind_eq,
      Program.done_bind, reduceCtorEq]
    exact .check (fun error => .giveUp) (.make (fun error => .giveUp) going) going

/-- The jobs of a removal concern one bucket, that of the version. -/
theorem bucket_of_mem_removals {job : SyncJob} (member : job ∈ plan.removals) :
    job.destination.bucket = plan.bucket := by
  obtain ⟨group, listed, made⟩ := List.mem_flatMap.mp member
  obtain ⟨file, member, made⟩ := List.mem_filterMap.mp made
  rw [(destination_of_jobFor? made).1]
  rfl

/-- A job was carried out at a place. -/
def TendedIn (pool : SyncPool) (place : ObjectAddress) : Prop :=
  ∃ done ∈ pool.floor.executed, done.1.destination = place

/-- How a removal stands with its bucket, and the account of what it has done since it began. -/
structure Secured (plan : SyncPlan) (first : ObjectStore) (pool : SyncPool)
    (objects : ObjectStore) (stage : BucketStage) : Prop where
  producer : Secures plan.bucket stage pool.producer
  faithful : pool.Faithful plan.removals
  accepted : stage ≠ .there → pool.floor.accepted = []
  there : stage = .there → objects.HasBucket plan.bucket ∧ ¬ first.RefusesBucket plan.bucket
  refused : stage = .refused → first.RefusesBucket plan.bucket
  idle : stage = .idle ↔ plan.groups = []
  account : ∃ added, first.Account objects
      (fun place => TendedIn pool place ∧ ¬ first.Refuses place)
      (fun place => TendedIn pool place ∧ first.Refuses place) added ∧
    ∀ bucket, added bucket → bucket = plan.bucket ∧ plan.groups ≠ []

variable {first backends : Backends} {history : List Moment} {pool : SyncPool} {tree : FileTree}

/-- A removal that begins has done nothing, and nothing is known of its bucket. -/
theorem secured_start (removes : plan.mode = .remove) (first : ObjectStore) :
    plan.Secured first (.initial plan.produce false) first
      (if plan.groups = [] then .idle else .unknown) where
  producer := secures_produce removes
  faithful := faithful_initial false (owes_produce removes)
  accepted _ := rfl
  there := by split <;> simp
  refused := by split <;> simp
  idle := by split <;> simp [*]
  account := by
    refine ⟨_, (ObjectStore.Account.refl first).congr (fun place _ => ?_) (fun place => ?_)
      (fun _ => .rfl), fun _ impossible => impossible.elim⟩ <;>
      simp [TendedIn, State.initial, Floor.executed, Floor.empty]

section Step

variable {stage : BucketStage} {first middle : ObjectStore} {before after : Backends}
  {pool' : SyncPool} {event : Event SyncJob (Except StorageError Unit)} {job : SyncJob}
  {result : Except StorageError Unit} {place : ObjectAddress}

/-- A move tends to the place of the job that it carries out, and to no other one. -/
theorem tendedIn_step (move : Step plan.sizing pool event pool') :
    TendedIn pool' place ↔
      TendedIn pool place ∨ ∃ done ∈ event.execution?, done.1.destination = place := by
  unfold TendedIn
  rw [move.executed]
  simp [or_and_right, exists_or]

/-- A move that concerns no object keeps a removal as it stands: jobs go from station to station,
and the producer goes on. -/
theorem Secured.idles (secured : plan.Secured first pool middle stage)
    (move : Step plan.sizing pool event pool') (uncancelled : pool.cancelled = false)
    (inside : event ≠ .cancelled) (uncalled : ∀ call answer, event ≠ .called call answer)
    (nothing : event.execution? = none) : plan.Secured first pool' middle stage := by
  obtain ⟨producer, accepted⟩ := secured.producer.step move uncancelled inside uncalled
  have tended : ∀ place, TendedIn pool' place ↔ TendedIn pool place := fun place => by
    rw [tendedIn_step move, nothing]
    simp
  refine ⟨producer, secured.faithful.step move,
    fun unsafely => (accepted unsafely).trans (secured.accepted unsafely), secured.there,
    secured.refused, secured.idle, ?_⟩
  simpa only [tended] using secured.account

/-- A call of the producer tells a removal about its bucket, and may make it. -/
theorem Secured.calls {call : Call} {answer : call.Answer}
    (secured : plan.Secured first pool before.objects stage)
    (move : Step plan.sizing pool (.called call answer) pool')
    (answered : answer = (before.answer call).1) :
    ∃ stage', plan.Secured first pool' (before.answer call).2.objects stage' := by
  have faithful := secured.faithful.step move
  have tended : ∀ place, TendedIn pool' place ↔ TendedIn pool place := fun place => by
    rw [tendedIn_step move]
    simp [Event.execution?]
  cases move with
  | call call next =>
    subst answered
    obtain ⟨rfl, stage', added, producer, busy, there, refused, account, own⟩ :=
      secured.producer.called before
    obtain ⟨earlier, former, own'⟩ := secured.account
    have usable : before.objects.RefusesBucket plan.bucket ↔ first.RefusesBucket plan.bucket :=
      former.refusesBucket
    have some : plan.groups ≠ [] := fun none => by cases secured.idle.mpr none
    refine ⟨stage', producer, faithful, fun _ => secured.accepted (by simp),
      fun known => ⟨(there known).1, fun refuses => (there known).2 (usable.mpr refuses)⟩,
      fun known => usable.mp (refused known), iff_of_false busy some,
      fun bucket => earlier bucket ∨ added bucket, ?_, ?_⟩
    · simpa only [tended, or_false] using former.trans account
    · rintro bucket (former | new)
      · exact own' bucket former
      · exact ⟨own bucket new, some⟩

/-- A job of a removal removes its object, in a bucket that is there, or fails where this is
refused. The account of the whole is joined with that of this one call. -/
theorem Secured.executes (secured : plan.Secured first pool before.objects stage)
    (move : Step plan.sizing pool (.executed job result) pool')
    (performed : Calling.perform Backends.answer job.perform before = (result, after))
    (uncancelled : pool.cancelled = false) : plan.Secured first pool' after.objects stage := by
  have accepted : job ∈ pool.floor.accepted :=
    move.execution_accepted secured.faithful.conserved
  have known : stage = .there := by
    by_contra unsafely
    rw [secured.accepted unsafely] at accepted
    cases accepted
  have member : job ∈ plan.removals := secured.faithful.accepted.subset accepted
  have home : job.destination.bucket = plan.bucket := bucket_of_mem_removals member
  have removed : after.objects = (before.objects.answer (.removeObject job.destination)).2 := by
    rw [perform_of_mem_removals member] at performed
    exact (congrArg (fun outcome => outcome.2.objects) performed).symm
  obtain ⟨there, usable⟩ := secured.there known
  obtain ⟨added, former, own⟩ := secured.account
  have removal := ObjectStore.account_removeObject (home ▸ there)
  rw [← removed] at removal
  obtain ⟨producer, -⟩ := secured.producer.step move uncancelled (by simp) (by simp)
  refine ⟨producer, secured.faithful.step move, fun unsafely => absurd known unsafely,
    fun _ => ⟨(removal.buckets plan.bucket).mpr (.inl there), usable⟩, secured.refused,
    secured.idle, added, ?_, own⟩
  have tended : ∀ place, TendedIn pool' place ↔ TendedIn pool place ∨ place = job.destination :=
    fun place => by
      rw [tendedIn_step move]
      simp [Event.execution?, eq_comm]
  refine (former.trans removal).congr (fun place _ => ?_) (fun place => ?_) (by simp)
  all_goals
    rw [tended, or_and_right, former.loses.refuses]
    refine or_congr_right (and_congr_right ?_)
    rintro rfl
    exact .rfl

end Step

/-- Whatever a removal does among nobody else, it stays right about its bucket, and its account
stays complete. -/
theorem Working.secured (removes : plan.mode = .remove)
    (working : plan.Working Ticks first history pool tree backends) :
    ∃ stage, plan.Secured first.objects pool backends.objects stage := by
  induction working with
  | start => exact ⟨_, secured_start removes first.objects⟩
  | change past change ih =>
    obtain ⟨now, rfl⟩ := change
    exact ih
  | work past move effect ih =>
    obtain ⟨stage, secured⟩ := ih
    obtain ⟨-, uncancelled⟩ := past.reachable
    cases effect with
    | internal => exact ⟨stage, secured.idles move uncancelled (by simp) (by simp) rfl⟩
    | called call => exact secured.calls move rfl
    | executed tree performed => exact ⟨stage, secured.executes move performed uncancelled⟩
    | delivered => exact ⟨stage, secured.idles move uncancelled (by simp) (by simp) rfl⟩

/-- What a removal comes to that is carried out among nobody else. -/
inductive Disposes (plan : SyncPlan) (before after : Backends)
    (outcome : Except SyncError RunOutcome) : Prop
  /-- Its bucket cannot be used, and it gives up. -/
  | barred {error : SyncError} (some : plan.groups ≠ [])
      (refused : before.objects.RefusesBucket plan.bucket) (failed : outcome = .error error)
      (documents : after.documents = before.documents)
  /-- Its jobs were carried out, and it is concluded. -/
  | done {tree : FileTree} {middle : Backends}
      (usable : plan.groups ≠ [] → ¬ before.objects.RefusesBucket plan.bucket)
      (account : before.objects.Account after.objects
        (fun place => plan.Hits place ∧ ¬ before.objects.Refuses place)
        (fun place => plan.Hits place ∧ before.objects.Refuses place)
        fun bucket => bucket = plan.bucket ∧ plan.groups ≠ [])
      (documents : middle.documents = before.documents)
      (committed : Performs (plan.commit tree) middle outcome after)

/-- A removal whose pool has come to a good end was at the places of all its files. -/
theorem Secured.tended {first objects : ObjectStore} {stage : BucketStage}
    (secured : plan.Secured first pool objects stage) (ended : pool.ended? = some (.ok ()))
    (uncancelled : pool.cancelled = false) (place : ObjectAddress) :
    TendedIn pool place ↔ plan.Hits place := by
  obtain ⟨-, -, -, noneAwaiting⟩ := State.ended_ok ended
  have whole := secured.faithful.complete ended uncancelled
  unfold TendedIn Hits
  rw [Floor.executed, noneAwaiting, List.append_nil]
  constructor
  · rintro ⟨done, member, same⟩
    exact ⟨done.1, whole.mem_iff.mp (List.mem_map_of_mem member), same⟩
  · rintro ⟨job, member, same⟩
    obtain ⟨done, delivered, rfl⟩ := List.mem_map.mp (whole.mem_iff.mpr member)
    exact ⟨done, delivered, same⟩

/-- A removal gives up at once, or it is complete. Whether or not its bucket was new, a removal that
had groups leaves it there. -/
theorem Runs.disposes {before after : Backends} {outcome : Except SyncError RunOutcome}
    (removes : plan.mode = .remove) (runs : plan.Runs before outcome after) :
    plan.Disposes before after outcome := by
  obtain ⟨history, pool, tree, middle, produced, working, ended, performs⟩ := runs.cases
  obtain ⟨stage, secured⟩ := working.secured removes
  have producer := secured.producer
  rw [State.producer_of_ended ended] at producer
  cases produced with
  | error error =>
    cases producer
    obtain ⟨rfl, now, rfl⟩ := performs_done_iff.mp performs
    have some : plan.groups ≠ [] := fun none => by cases secured.idle.mpr none
    exact .barred some (secured.refused rfl) rfl working.documents
  | ok =>
    obtain ⟨-, objects⟩ := concludes_of_performs performs
    obtain ⟨added, account, own⟩ := secured.account
    obtain ⟨-, uncancelled⟩ := working.reachable
    have tended := secured.tended ended uncancelled
    refine .done (fun some => ?_) ?_ working.documents performs
    · cases producer with
      | idle => exact absurd (secured.idle.mp rfl) some
      | finish => exact (secured.there rfl).2
    · rw [objects]
      refine account.congr (fun place _ => by rw [tended]) (fun place => by rw [tended])
        fun bucket => ?_
      cases producer with
      | idle =>
        have none := secured.idle.mp rfl
        simp only [none, ne_eq, not_true_eq_false, and_false, or_false]
        exact ⟨fun either => either.elim id fun new => absurd none (own bucket new).2, .inl⟩
      | finish =>
        have some : plan.groups ≠ [] := fun none => by cases secured.idle.mpr none
        have there : middle.objects.HasBucket plan.bucket := (secured.there rfl).1
        rw [account.buckets] at there
        constructor
        · exact fun either => either.imp_right (own bucket)
        · rintro (former | ⟨rfl, -⟩)
          · exact .inl former
          · exact there

end SyncPlan

end DatasetSync
