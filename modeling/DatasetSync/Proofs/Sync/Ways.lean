import DatasetSync.Proofs.Pool.Passage
import DatasetSync.Proofs.Sync.Handover

/-!
# The ways through a plan

The producer of a plan goes through groups and files, and there are six places at which it can
leave: it sees before a group or before a file that the work is to stop, a job is refused, the files
of a group are not found, and the bucket can be neither checked nor made. Here its text is read once
and for all, as a list of the ways that it can take. Nothing is assumed of the pool, of the resolver
or of the object store: every question may be answered in any way.
-/

namespace DatasetSync

/-- The check of a bucket, which is made if it is missing: the calls and what they come to. -/
inductive BucketCheck (bucket : String) :
    List (Exchange Calls) → Except StorageError Unit → Prop
  | there : BucketCheck bucket [⟨.object (.bucketExists bucket), .ok true⟩] (.ok ())
  | unknown (error : StorageError) :
      BucketCheck bucket [⟨.object (.bucketExists bucket), .error error⟩] (.error error)
  | made : BucketCheck bucket
      [⟨.object (.bucketExists bucket), .ok false⟩, ⟨.object (.makeBucket bucket), .ok ()⟩] (.ok ())
  | unmade (error : StorageError) : BucketCheck bucket
      [⟨.object (.bucketExists bucket), .ok false⟩, ⟨.object (.makeBucket bucket), .error error⟩]
      (.error error)

/-- The calls that make sure of a bucket: none if it was checked before. -/
def BucketReady (bucket : String) (checked : Bool) (calls : List (Exchange Calls)) : Prop :=
  if checked then calls = [] else BucketCheck bucket calls (.ok ())

section BucketCheck

variable {bucket : String} {checked : Bool} {calls : List (Exchange Calls)}
  {verdict : Except StorageError Unit}

/-- All calls of a check ask the object store. -/
theorem BucketCheck.objects (check : BucketCheck bucket calls verdict) :
    calls.filter Exchange.asksObjects = calls := by
  cases check <;> rfl

/-- A check does not ask the resolver: whether the bucket is there is the store's to say. -/
theorem BucketCheck.resolutions (check : BucketCheck bucket calls verdict) :
    calls.filterMap Exchange.resolution? = [] := by
  cases check <;> rfl

/-- The calls of a check tell what it comes to: whether the bucket is there, was made, or cannot be
used. -/
theorem BucketCheck.verdict_unique {other : Except StorageError Unit}
    (check : BucketCheck bucket calls verdict) (check' : BucketCheck bucket calls other) :
    verdict = other := by
  cases check <;> cases check' <;> rfl

/-- All calls by which a bucket is made ready ask the object store, if there are any. -/
theorem BucketReady.objects (ready : BucketReady bucket checked calls) :
    calls.filter Exchange.asksObjects = calls := by
  cases checked with
  | true =>
    cases (ready : calls = [])
    rfl
  | false => exact BucketCheck.objects ready

/-- To make a bucket ready the resolver is not asked, whether the bucket was checked before or is
made now. -/
theorem BucketReady.resolutions (ready : BucketReady bucket checked calls) :
    calls.filterMap Exchange.resolution? = [] := by
  cases checked with
  | true =>
    cases (ready : calls = [])
    rfl
  | false => exact BucketCheck.resolutions ready

end BucketCheck

namespace SyncPlan

open Pool

variable {plan : SyncPlan} {source : Reference}

/-- A file of which a plan makes a job. -/
def isDue (plan : SyncPlan) (file : FileRecord) : Bool :=
  !Text.endsWith '/' file.path && (plan.mode = .remove || file.phase = .processing)

/-- The jobs of a group whose files come from a given place. -/
def jobsAt (plan : SyncPlan) (group : SourceFiles) (location : Option Location) : List SyncJob :=
  (group.files.filter plan.isDue).map fun file =>
    { source := location.map fun place => ⟨place.bucket, place.leading ++ file.path⟩
      destination := plan.destination file.path
      owner := ⟨group.source.ns.getD "", group.source.name⟩ }

/-- Whether the resolver decides where the files of a source are. -/
def isResolved (plan : SyncPlan) (source : Reference) : Bool :=
  plan.mode = .copy && source.kind ≠ Reference.versionedDatasetKind

/-- Where the files of a source come from that the resolver does not decide. -/
def ownLocation (plan : SyncPlan) (source : Reference) : Option Location :=
  if plan.mode = .copy then some (plan.inheritedLocation source) else none

/-- The calls that find the files of a source, and what they come to. -/
inductive Locates (plan : SyncPlan) (source : Reference) :
    List (Exchange Calls) → Except StoreError (Option Location) → Prop
  | known (own : plan.isResolved source = false) : Locates plan source []
      (.ok (plan.ownLocation source))
  | asked (foreign : plan.isResolved source = true) (answer : Except StoreError String) :
      Locates plan source [⟨.resolve source plan.document.ns, answer⟩]
        (answer.map fun bucket => some ⟨bucket, ""⟩)

/-- What a producer exchanges that hands over jobs: it makes no call, and it stays within the
jobs. It goes on if it is through with them, and leaves off if it was interrupted. -/
structure Hands (jobs : List SyncJob) (trail : List (Exchange (Productions SyncJob)))
    (going : Bool) : Prop where
  quiet : called trail = []
  within : taken trail <+: jobs
  through : going = true → taken trail = jobs ∧ interrupted trail = false
  interrupted : going = false → interrupted trail = true

/-- The ways through groups: what the producer exchanges, and how it ends. The bucket has been
checked before, or it is checked when the first group has been found. -/
inductive Passes (plan : SyncPlan) :
    Bool → FileTree → List (Exchange (Productions SyncJob)) → Except SyncError Unit → Prop
  | finished (checked : Bool) : Passes plan checked [] [] (.ok ())
  | stopped (checked : Bool) (group : SourceFiles) (groups : FileTree) :
      Passes plan checked (group :: groups) [⟨.isStopping, true⟩] (.ok ())
  | unlocated {checked : Bool} {group : SourceFiles} {groups : FileTree}
      {asked : List (Exchange Calls)} {error : StoreError}
      (locates : plan.Locates group.source asked (.error error)) :
      Passes plan checked (group :: groups) (passage asked []) (.error (.store error))
  | unsecured {group : SourceFiles} {groups : FileTree} {asked looked : List (Exchange Calls)}
      {location : Option Location} {error : StorageError}
      (locates : plan.Locates group.source asked (.ok location))
      (check : BucketCheck plan.bucket looked (.error error)) :
      Passes plan false (group :: groups) (passage (asked ++ looked) [])
        (.error (.storage error))
  | left {checked : Bool} {group : SourceFiles} {groups : FileTree}
      {asked looked : List (Exchange Calls)} {location : Option Location}
      {handed : List (Exchange (Productions SyncJob))}
      (locates : plan.Locates group.source asked (.ok location))
      (ready : BucketReady plan.bucket checked looked)
      (hands : Hands (plan.jobsAt group location) handed false) :
      Passes plan checked (group :: groups) (passage (asked ++ looked) handed) (.ok ())
  | went {checked : Bool} {group : SourceFiles} {groups : FileTree}
      {asked looked : List (Exchange Calls)} {location : Option Location}
      {handed rest : List (Exchange (Productions SyncJob))} {result : Except SyncError Unit}
      (locates : plan.Locates group.source asked (.ok location))
      (ready : BucketReady plan.bucket checked looked)
      (hands : Hands (plan.jobsAt group location) handed true)
      (later : Passes plan true groups rest result) :
      Passes plan checked (group :: groups) (passage (asked ++ looked) handed ++ rest) result

/-- A job is made for each file that is due, and for no other: from the place of its group to the
place of its path in the version. -/
theorem jobFor?_eq (plan : SyncPlan) (location : Option Location) (source : Reference)
    (file : FileRecord) :
    plan.jobFor? location source file = if plan.isDue file then
      some { source := location.map fun place => ⟨place.bucket, place.leading ++ file.path⟩
             destination := plan.destination file.path
             owner := ⟨source.ns.getD "", source.name⟩ }
      else none := by
  unfold jobFor? isDue
  cases plan.mode <;> cases Text.endsWith '/' file.path <;>
    by_cases processing : file.phase = .processing <;> simp [processing]

/-- The jobs of a group are those that are made for its files. -/
theorem filterMap_jobFor? (plan : SyncPlan) (group : SourceFiles) (location : Option Location) :
    group.files.filterMap (plan.jobFor? location group.source) = plan.jobsAt group location := by
  unfold jobsAt
  induction group.files with
  | nil => rfl
  | cons file files ih =>
    rw [List.filterMap_cons, List.filter_cons, ih, jobFor?_eq]
    cases plan.isDue file <;> rfl

/-- To hand over the jobs of files is to hand over their jobs, in their order, until the work is to
stop. The induction is on the files; for each of them the rest of the program stands behind the
handing over of its job. -/
theorem produceFiles_hands {location : Option Location} {files : List FileRecord}
    {trail : List (Exchange (Productions SyncJob))} {going : Bool}
    (leads : (plan.produceFiles location source files).Leads trail (.done going)) :
    Hands (files.filterMap (plan.jobFor? location source)) trail going := by
  induction files generalizing trail with
  | nil =>
    obtain ⟨rfl, rfl⟩ := Program.done_ended leads
    exact ⟨rfl, List.prefix_refl _, fun _ => ⟨rfl, rfl⟩, by simp⟩
  | cons file files ih =>
    obtain ⟨stopping, later, rfl, after⟩ := Program.ask_ended leads
    cases stopping with
    | true =>
      obtain ⟨rfl, rfl⟩ := Program.done_ended after
      exact ⟨rfl, List.nil_prefix, by simp, fun _ => rfl⟩
    | false =>
      cases made : plan.jobFor? location source file with
      | none =>
        rw [List.filterMap_cons_none made]
        have goesOn : (plan.produceFiles location source files).Leads later (.done going) := by
          simpa [made] using after
        have hands := ih goesOn
        exact ⟨hands.quiet, hands.within, hands.through, hands.interrupted⟩
      | some job =>
        rw [List.filterMap_cons_some made]
        have queues : ((Producing.queue job).bind fun taken =>
            if taken = true then plan.produceFiles location source files
              else .done false).Leads later (.done going) := by simpa [made] using after
        obtain ⟨accepted, rest, rfl, goes⟩ := Program.ask_ended queues
        cases accepted with
        | false =>
          obtain ⟨rfl, rfl⟩ := Program.done_ended goes
          exact ⟨rfl, List.nil_prefix, by simp, fun _ => rfl⟩
        | true =>
          have hands := ih goes
          refine ⟨hands.quiet, ?_, fun through => ?_, hands.interrupted⟩
          · exact List.cons_prefix_cons.mpr ⟨rfl, hands.within⟩
          · obtain ⟨all, calm⟩ := hands.through through
            exact ⟨congrArg (job :: ·) all, calm⟩

/-- Files that the resolver does not decide are found without a call. -/
theorem locate?_eq_done (own : plan.isResolved source = false) :
    plan.locate? source = .done (.ok (plan.ownLocation source)) := by
  unfold locate? locate ownLocation
  cases mode : plan.mode with
  | remove => rfl
  | copy =>
    have inherited : source.kind = Reference.versionedDatasetKind := by
      simpa [isResolved, mode] using own
    simp only [if_pos inherited]
    rfl

/-- What the search for the files of a source exchanges, and what it comes to: a place that was told
by the resolver, an error of it, or the place that is known without it. -/
theorem locate?_locates {calls : List (Exchange Calls)} {found : Except SyncError (Option Location)}
    (leads : (plan.locate? source).Leads calls (.done found)) :
    ∃ place, plan.Locates source calls place ∧ found = place.mapError .store := by
  cases own : plan.isResolved source with
  | false =>
    rw [locate?_eq_done own] at leads
    obtain ⟨rfl, rfl⟩ := Program.done_ended leads
    exact ⟨_, .known own, rfl⟩
  | true =>
    obtain ⟨copies, other⟩ : plan.mode = .copy ∧ source.kind ≠ Reference.versionedDatasetKind := by
      simpa [isResolved] using own
    unfold locate? locate at leads
    rw [copies, if_neg other] at leads
    obtain ⟨answer, later, rfl, after⟩ := Program.ask_ended leads
    cases answer with
    | error error =>
      obtain ⟨rfl, rfl⟩ := Program.done_ended after
      exact ⟨_, .asked own (.error error), rfl⟩
    | ok bucket =>
      obtain ⟨rfl, rfl⟩ := Program.done_ended after
      exact ⟨_, .asked own (.ok bucket), rfl⟩

/-- What the check of the bucket exchanges, and what it comes to: the bucket is there, or it was
made, or one of the two calls has failed. -/
theorem ensureBucket_checks {calls : List (Exchange Calls)} {found : Except SyncError Unit}
    (leads : plan.ensureBucket.Leads calls (.done found)) :
    ∃ verdict, BucketCheck plan.bucket calls verdict ∧ found = verdict.mapError .storage := by
  obtain ⟨there, later, rfl, after⟩ := Program.ask_ended leads
  rcases there with error | _ | _
  · obtain ⟨rfl, rfl⟩ := Program.done_ended after
    exact ⟨_, .unknown error, rfl⟩
  · obtain ⟨made, rest, rfl, final⟩ := Program.ask_ended after
    rcases made with error | _
    · obtain ⟨rfl, rfl⟩ := Program.done_ended final
      exact ⟨_, .unmade error, rfl⟩
    · obtain ⟨rfl, rfl⟩ := Program.done_ended final
      exact ⟨_, .made, rfl⟩
  · obtain ⟨rfl, rfl⟩ := Program.done_ended after
    exact ⟨_, .there, rfl⟩

/-- What the preparation of a group exchanges: it finds the files, and then checks the bucket unless
it was checked before. -/
theorem prepare_ended {checked : Bool} {calls : List (Exchange Calls)}
    {found : Except SyncError (Option Location)}
    (leads : (plan.prepare source checked).Leads calls (.done found)) :
    (∃ error, plan.Locates source calls (.error error) ∧ found = .error (.store error)) ∨
      ∃ asked looked location, calls = asked ++ looked ∧ plan.Locates source asked (.ok location) ∧
        ((checked = false ∧ ∃ error, BucketCheck plan.bucket looked (.error error) ∧
            found = .error (.storage error)) ∨
          BucketReady plan.bucket checked looked ∧ found = .ok location) := by
  obtain ⟨asked, looked, value, rfl, located, after⟩ := Program.bind_ended leads
  obtain ⟨place, locates, rfl⟩ := locate?_locates located
  cases place with
  | error error =>
    obtain ⟨rfl, rfl⟩ := Program.done_ended after
    rw [List.append_nil]
    exact .inl ⟨error, locates, rfl⟩
  | ok location =>
    refine .inr ⟨asked, looked, location, rfl, locates, ?_⟩
    cases checked with
    | true =>
      obtain ⟨rfl, rfl⟩ := Program.done_ended after
      exact .inr ⟨by simp [BucketReady], rfl⟩
    | false =>
      have ensuring : (plan.ensureBucket.bind fun made =>
          .done (made.map fun () => location)).Leads looked (.done found) := after
      obtain ⟨first, second, ensured, rfl, ended, final⟩ := Program.bind_ended ensuring
      obtain ⟨rfl, same⟩ := Program.done_leads_iff.mp final
      obtain ⟨verdict, check, rfl⟩ := ensureBucket_checks ended
      rw [List.append_nil]
      cases verdict with
      | error error =>
        cases same
        exact .inl ⟨rfl, error, check, rfl⟩
      | ok =>
        cases same
        exact .inr ⟨by simpa [BucketReady] using check, rfl⟩

/-- A producer that has come to its end has gone one of the ways. The induction is along the groups:
whether the bucket was checked is passed on from one to the next. -/
theorem produceGroups_passes {checked : Bool} {groups : FileTree}
    {trail : List (Exchange (Productions SyncJob))} {result : Except SyncError Unit}
    (leads : (plan.produceGroups groups checked).Leads trail (.done result)) :
    plan.Passes checked groups trail result := by
  induction groups generalizing checked trail with
  | nil =>
    obtain ⟨rfl, rfl⟩ := Program.done_ended leads
    exact .finished checked
  | cons group groups ih =>
    obtain ⟨stopping, later, rfl, after⟩ := Program.ask_ended leads
    cases stopping with
    | true =>
      obtain ⟨rfl, rfl⟩ := Program.done_ended after
      exact .stopped checked group groups
    | false =>
      obtain ⟨calls, found, rest, rfl, prepared, goes⟩ := Producing.calling_bind_ended after
      rcases prepare_ended prepared with ⟨error, locates, rfl⟩ |
        ⟨asked, looked, location, rfl, locates, ⟨rfl, error, check, rfl⟩ | ⟨check, rfl⟩⟩
      · obtain ⟨rfl, rfl⟩ := Program.done_ended goes
        exact .unlocated locates
      · obtain ⟨rfl, rfl⟩ := Program.done_ended goes
        exact .unsecured locates check
      · obtain ⟨handed, rest, going, rfl, ended, further⟩ := Program.bind_ended goes
        have hands := produceFiles_hands ended
        rw [filterMap_jobFor?] at hands
        cases going with
        | false =>
          obtain ⟨rfl, rfl⟩ := Program.done_ended further
          rw [List.append_nil]
          exact .left locates check hands
        | true =>
          have goes := Passes.went locates check hands (ih further)
          rwa [passage_append] at goes

end SyncPlan

end DatasetSync
