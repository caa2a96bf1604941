import DatasetSync.Proofs.FileTree.Target
import DatasetSync.Proofs.Sync.Ways

/-!
# The schedule of a plan

Where the files of the groups come from is read off the answers of the resolver, in the order in
which they were given. With it the schedule is known, which lists the jobs in stored order. A
producer never leaves its schedule, and if it is not interrupted, it gets through it, up to the
first group that is not found. The bucket is checked before the first job, and not again.

For groups that a producer did not come to, the resolver has not been asked. So the laws hold
whatever it would have said about them.
-/

namespace DatasetSync

namespace SyncPlan

open Pool

variable {plan : SyncPlan} {source : Reference}

/-- Where the files of groups come from, by what the resolver answers about those that it decides,
in order. The list ends before the first group that is not found or about which nothing is said. -/
def locations (plan : SyncPlan) :
    FileTree → List (Except StoreError String) → List (Option Location)
  | [], _ => []
  | group :: groups, answers =>
    if plan.isResolved group.source then
      match answers with
      | .ok bucket :: later => some ⟨bucket, ""⟩ :: plan.locations groups later
      | _ => []
    else plan.ownLocation group.source :: plan.locations groups answers

/-- The jobs of groups in stored order, as far as it is known where their files come from. -/
def schedule (plan : SyncPlan) (groups : FileTree) (locations : List (Option Location)) :
    List SyncJob :=
  (List.zipWith plan.jobsAt groups locations).flatten

section Ways

variable {checked : Bool} {group : SourceFiles} {groups : FileTree}
  {trail : List (Exchange (Productions SyncJob))} {result : Except SyncError Unit}
  {calls : List (Exchange Calls)} {location : Option Location}

/-- A group that is found is the first one of which it is known where it is. -/
theorem Locates.locations_cons (locates : plan.Locates group.source calls (.ok location))
    (unsaid : List (Except StoreError String)) :
    plan.locations (group :: groups)
        ((calls.filterMap Exchange.resolution?).map Prod.snd ++ unsaid) =
      location :: plan.locations groups unsaid := by
  generalize place : Except.ok location = found at locates
  cases locates with
  | known own =>
    cases place
    simp [locations, own]
  | asked foreign answer =>
    cases answer with
    | error error => cases place
    | ok bucket =>
      cases place
      simp [locations, foreign, Exchange.resolution?]

/-- Behind a group that is not found nothing is known: the error is the last answer of the resolver,
and no location is read off what might follow. -/
theorem Locates.failed {error : StoreError}
    (locates : plan.Locates group.source calls (.error error)) (groups : FileTree) :
    calls.filterMap Exchange.resolution? = [((group.source, plan.document.ns), .error error)] ∧
      ∀ unsaid, plan.locations (group :: groups) (.error error :: unsaid) = [] := by
  generalize place : Except.error error = found at locates
  cases locates with
  | known own => cases place
  | asked foreign answer =>
    cases answer with
    | error cause =>
      cases place
      exact ⟨rfl, fun unsaid => by simp [locations, foreign]⟩
    | ok bucket => cases place

/-- The search for the files of a group asks nothing of the object store. -/
theorem Locates.objects {found : Except StoreError (Option Location)}
    (locates : plan.Locates source calls found) : calls.filter Exchange.asksObjects = [] := by
  cases locates <;> rfl

/-- The search for the files of a group asks the resolver about this group, or it asks nothing. -/
theorem Locates.asks {found : Except StoreError (Option Location)}
    (locates : plan.Locates source calls found) :
    (calls.filterMap Exchange.resolution?).map Prod.fst =
      if plan.isResolved source then [(source, plan.document.ns)] else [] := by
  cases locates with
  | known own => simp [own]
  | asked foreign answer => simp [foreign, Exchange.resolution?]

/-- No answer about a group that is found is an error. -/
theorem Locates.not_failed (locates : plan.Locates source calls (.ok location))
    (error : StoreError) : .error error ∉ (calls.filterMap Exchange.resolution?).map Prod.snd := by
  generalize place : Except.ok location = found at locates
  cases locates with
  | known own => simp
  | asked foreign answer =>
    cases answer with
    | error cause => cases place
    | ok bucket => simp [Exchange.resolution?]

section Passage

variable {asked looked : List (Exchange Calls)} {handed : List (Exchange (Productions SyncJob))}

/-- In a passage the resolver is asked for the files of the group alone. -/
theorem resolutions_passage (silent : looked.filterMap Exchange.resolution? = [])
    (quiet : called handed = []) :
    resolutions (passage (asked ++ looked) handed) = asked.filterMap Exchange.resolution? := by
  simp [resolutions, quiet, silent]

/-- What is known after a group has been found and its jobs have been handed over: the location of
this group in front of those of the groups after it. -/
theorem Locates.locations_passage (locates : plan.Locates group.source asked (.ok location))
    (silent : looked.filterMap Exchange.resolution? = []) (quiet : called handed = [])
    (groups : FileTree) (unsaid : List (Except StoreError String)) :
    plan.locations (group :: groups) (answers (passage (asked ++ looked) handed) ++ unsaid) =
      location :: plan.locations groups unsaid := by
  rw [answers, resolutions_passage silent quiet, locates.locations_cons]

/-- In a passage about a group that is found the resolver does not fail. -/
theorem Locates.not_failed_passage (locates : plan.Locates group.source asked (.ok location))
    (silent : looked.filterMap Exchange.resolution? = []) (quiet : called handed = [])
    (error : StoreError) : .error error ∉ answers (passage (asked ++ looked) handed) := by
  rw [answers, resolutions_passage silent quiet]
  exact locates.not_failed error

/-- In a passage the object store is asked for the bucket alone, if it is asked at all. -/
theorem Locates.objectCalls_passage {found : Except StoreError (Option Location)}
    (locates : plan.Locates source asked found)
    (only : looked.filter Exchange.asksObjects = looked) (quiet : called handed = []) :
    objectCalls (passage (asked ++ looked) handed) = looked := by
  simp [objectCalls, quiet, only, locates.objects]

end Passage

/-- A schedule has the jobs of its first group and then those of the others. -/
@[simp] theorem schedule_cons (plan : SyncPlan) (group : SourceFiles) (groups : FileTree)
    (location : Option Location) (locations : List (Option Location)) :
    plan.schedule (group :: groups) (location :: locations) =
      plan.jobsAt group location ++ plan.schedule groups locations := rfl

/-- Either nothing is known of the first group, or it is known where it is, and then the others are
searched for. -/
theorem locations_cons_cases (plan : SyncPlan) (group : SourceFiles) (groups : FileTree)
    (told : List (Except StoreError String)) :
    plan.locations (group :: groups) told = [] ∨ ∃ location later,
      plan.locations (group :: groups) told = location :: plan.locations groups later := by
  by_cases foreign : plan.isResolved group.source = true
  · rcases told with _ | ⟨_ | bucket, later⟩
    · exact .inl (by simp [locations, foreign])
    · exact .inl (by simp [locations, foreign])
    · exact .inr ⟨some ⟨bucket, ""⟩, later, by simp [locations, foreign]⟩
  · exact .inr ⟨plan.ownLocation group.source, told, by simp [locations, foreign]⟩

/-- Where all groups are found, the jobs of a group that the resolver does not decide stand in the
schedule in one piece. -/
theorem schedule_of_mem {told : List (Except StoreError String)} (member : group ∈ groups)
    (own : plan.isResolved group.source = false)
    (found : (plan.locations groups told).length = groups.length) :
    ∃ front back, plan.schedule groups (plan.locations groups told) =
      front ++ plan.jobsAt group (plan.ownLocation group.source) ++ back := by
  induction groups generalizing told with
  | nil => cases member
  | cons first groups ih =>
    rcases List.mem_cons.mp member with rfl | member
    · refine ⟨[], plan.schedule groups (plan.locations groups told), ?_⟩
      simp [locations, own]
    · rcases plan.locations_cons_cases first groups told with none | ⟨location, later, same⟩
      · rw [none] at found
        cases found
      · rw [same] at found ⊢
        obtain ⟨front, back, split⟩ := ih member (Nat.succ.inj found)
        refine ⟨plan.jobsAt first location ++ front, back, ?_⟩
        rw [schedule_cons, split]
        simp

/-- The jobs that are taken from a producer begin the schedule, whatever the resolver says about
groups that it was not asked about. -/
theorem Passes.within (passes : plan.Passes checked groups trail result)
    (unsaid : List (Except StoreError String)) :
    taken trail <+: plan.schedule groups (plan.locations groups (answers trail ++ unsaid)) := by
  induction passes with
  | finished | stopped => exact List.nil_prefix
  | unlocated locates => simp
  | unsecured locates check => simp
  | left locates ready hands =>
    rw [locates.locations_passage ready.resolutions hands.quiet, schedule_cons, taken_passage]
    exact hands.within.trans (List.prefix_append _ _)
  | went locates ready hands later ih =>
    rw [answers_append, List.append_assoc,
      locates.locations_passage ready.resolutions hands.quiet, schedule_cons, taken_append,
      taken_passage, (hands.through rfl).1]
    exact (List.prefix_append_right_inj _).mpr ih

/-- A producer that is neither interrupted nor fails is through with all groups: each of them was
found, and all jobs on the schedule were taken. -/
theorem Passes.through (passes : plan.Passes checked groups trail result)
    (calm : interrupted trail = false) (well : result = .ok ()) :
    (plan.locations groups (answers trail)).length = groups.length ∧
      taken trail = plan.schedule groups (plan.locations groups (answers trail)) := by
  induction passes with
  | finished => exact ⟨rfl, rfl⟩
  | stopped => cases calm
  | unlocated | unsecured => cases well
  | left locates ready hands =>
    rw [interrupted_passage, hands.interrupted rfl] at calm
    cases calm
  | went locates ready hands later ih =>
    obtain ⟨all, calm'⟩ := hands.through rfl
    rw [interrupted_append, interrupted_passage, calm', Bool.false_or] at calm
    obtain ⟨length, same⟩ := ih calm well
    rw [answers_append, locates.locations_passage ready.resolutions hands.quiet, schedule_cons,
      taken_append, taken_passage, all, same]
    exact ⟨congrArg Nat.succ length, rfl⟩

/-- Where the resolver fails, the producer gives up with its error, and it is through with the
groups before the one that was not found. -/
theorem Passes.unresolved {error : StoreError} (passes : plan.Passes checked groups trail result)
    (failed : .error error ∈ answers trail) :
    result = .error (.store error) ∧
      taken trail = plan.schedule groups (plan.locations groups (answers trail)) ∧
      ∃ group, groups[(plan.locations groups (answers trail)).length]? = some group ∧
        (resolutions trail).getLast? =
          some ((group.source, plan.document.ns), .error error) := by
  induction passes with
  | finished | stopped => cases failed
  | @unlocated checked group groups asked cause locates =>
    obtain ⟨said, unknown⟩ := locates.failed groups
    have told : resolutions (passage asked [] : List (Exchange (Productions SyncJob))) =
        [((group.source, plan.document.ns), .error cause)] := by simpa [resolutions] using said
    have answered : answers (passage asked [] : List (Exchange (Productions SyncJob))) =
        [.error cause] := by simp [answers, told]
    rw [answered, List.mem_singleton] at failed
    cases failed
    rw [answered, unknown]
    exact ⟨rfl, by simp [schedule], group, rfl, by rw [told]; rfl⟩
  | unsecured locates check =>
    exact absurd failed (locates.not_failed_passage check.resolutions rfl error)
  | left locates ready hands =>
    exact absurd failed (locates.not_failed_passage ready.resolutions hands.quiet error)
  | went locates ready hands later ih =>
    rw [answers_append, List.mem_append] at failed
    rcases failed with own | failed
    · exact absurd own (locates.not_failed_passage ready.resolutions hands.quiet error)
    · obtain ⟨ends, same, group, found, last⟩ := ih failed
      rw [answers_append, locates.locations_passage ready.resolutions hands.quiet, schedule_cons,
        taken_append, taken_passage, (hands.through rfl).1, same, resolutions_append,
        List.getLast?_append, last]
      exact ⟨ends, rfl, group, found, rfl⟩

/-- The resolver is asked about the groups that it decides, in stored order, and about no group
twice for itself. A group contributes a question exactly if the resolver decides it; where the
producer leaves off, the rest is not asked. -/
theorem Passes.asked (passes : plan.Passes checked groups trail result) :
    (resolutions trail).map Prod.fst <+:
      (groups.filter fun group => plan.isResolved group.source).map fun group =>
        (group.source, plan.document.ns) := by
  have split : ∀ (group : SourceFiles) (groups : FileTree),
      ((group :: groups).filter fun group => plan.isResolved group.source).map
          (fun group => (group.source, plan.document.ns)) =
        (if plan.isResolved group.source then [(group.source, plan.document.ns)] else []) ++
          (groups.filter fun group => plan.isResolved group.source).map
            fun group => (group.source, plan.document.ns) := by
    intro group groups
    cases foreign : plan.isResolved group.source <;> simp [foreign]
  induction passes with
  | finished | stopped => exact List.nil_prefix
  | unlocated locates =>
    rw [split, ← locates.asks]
    simp [resolutions]
  | unsecured locates check =>
    rw [resolutions_passage check.resolutions rfl, locates.asks, split]
    exact List.prefix_append _ _
  | left locates ready hands =>
    rw [resolutions_passage ready.resolutions hands.quiet, locates.asks, split]
    exact List.prefix_append _ _
  | went locates ready hands later ih =>
    rw [resolutions_append, resolutions_passage ready.resolutions hands.quiet, List.map_append,
      locates.asks, split]
    exact (List.prefix_append_right_inj _).mpr ih

/-- Where the bucket was checked before, the object store is not asked. So it is asked for the first
group at most. -/
theorem Passes.objectCalls_eq_nil (passes : plan.Passes checked groups trail result)
    (before : checked = true) : objectCalls trail = [] := by
  induction passes with
  | finished | stopped => rfl
  | unlocated locates => simp [objectCalls, locates.objects]
  | unsecured => cases before
  | left locates ready hands =>
    subst before
    rw [locates.objectCalls_passage ready.objects hands.quiet]
    exact ready
  | went locates ready hands later ih =>
    subst before
    rw [objectCalls_append, locates.objectCalls_passage ready.objects hands.quiet, ih rfl]
    exact congrArg (· ++ []) (ready : _ = [])

/-- The bucket is not asked for, or it cannot be used and nothing is handed over, or it is there. -/
theorem Passes.check (passes : plan.Passes false groups trail result) :
    objectCalls trail = [] ∨
      (∃ error, BucketCheck plan.bucket (objectCalls trail) (.error error) ∧
        result = .error (.storage error) ∧ taken trail = []) ∨
      BucketCheck plan.bucket (objectCalls trail) (.ok ()) := by
  generalize before : false = checked at passes
  cases passes with
  | finished | stopped => exact .inl rfl
  | unlocated locates => exact .inl (by simp [objectCalls, locates.objects])
  | unsecured locates check =>
    refine .inr (.inl ⟨_, ?_, rfl, by simp⟩)
    rw [locates.objectCalls_passage check.objects rfl]
    exact check
  | left locates ready hands =>
    subst before
    refine .inr (.inr ?_)
    rw [locates.objectCalls_passage ready.objects hands.quiet]
    exact ready
  | went locates ready hands later =>
    subst before
    refine .inr (.inr ?_)
    rw [objectCalls_append, locates.objectCalls_passage ready.objects hands.quiet,
      later.objectCalls_eq_nil rfl, List.append_nil]
    exact ready

/-- A failed producer has met a failure of the resolver, or one of the object store. Behind the
first group the bucket is not asked for, so there the resolver has failed. -/
theorem Passes.excused {error : SyncError} (passes : plan.Passes checked groups trail result)
    (failed : result = .error error) :
    (∃ cause, error = .store cause ∧ .error cause ∈ answers trail) ∨
      ∃ cause, checked = false ∧ error = .storage cause ∧
        BucketCheck plan.bucket (objectCalls trail) (.error cause) := by
  induction passes with
  | finished | stopped | left => cases failed
  | @unlocated checked group groups asked cause locates =>
    cases failed
    obtain ⟨said, -⟩ := locates.failed groups
    exact .inl ⟨cause, rfl, by simp [answers, resolutions, said]⟩
  | unsecured locates check =>
    cases failed
    refine .inr ⟨_, rfl, rfl, ?_⟩
    rw [locates.objectCalls_passage check.objects rfl]
    exact check
  | went locates ready hands later ih =>
    rcases ih failed with ⟨cause, same, told⟩ | ⟨cause, impossible, -⟩
    · exact .inl ⟨cause, same, by rw [answers_append]; exact List.mem_append_right _ told⟩
    · cases impossible

/-- Within a group, no job is handed over before the bucket is there. The job comes after the calls
of the passage, which include the check. -/
theorem Locates.secured_passage {asked looked : List (Exchange Calls)}
    {behind front back : List (Exchange (Productions SyncJob))} {job : SyncJob} {accepted : Bool}
    {found : Except StoreError (Option Location)} (locates : plan.Locates source asked found)
    (ready : BucketReady plan.bucket false looked) (later : objectCalls behind = [])
    (cut : passage (asked ++ looked) behind = front ++ ⟨.queue job, accepted⟩ :: back) :
    BucketCheck plan.bucket (objectCalls front) (.ok ()) := by
  have silent : offered (passage (asked ++ looked) ([] : List (Exchange (Productions SyncJob)))) =
      [] := offered_passage _ _
  rw [← List.nil_append behind, ← passage_append] at cut
  obtain ⟨more, rfl, rfl⟩ := split_at_queue silent cut
  rw [objectCalls_append, List.append_eq_nil_iff] at later
  rw [objectCalls_append, locates.objectCalls_passage ready.objects rfl, later.1, List.append_nil]
  exact ready

/-- No job is handed over before the bucket is there. In the ways that end before the files of a
group no job is handed over; in the others the job is in the first group or in a later one, which
the first has secured. -/
theorem Passes.secured {front back : List (Exchange (Productions SyncJob))} {job : SyncJob}
    {accepted : Bool} (passes : plan.Passes false groups trail result)
    (cut : trail = front ++ ⟨.queue job, accepted⟩ :: back) :
    BucketCheck plan.bucket (objectCalls front) (.ok ()) := by
  generalize before : false = checked at passes
  cases passes with
  | finished | stopped => exact absurd (congrArg offered cut).symm offered_ne_nil
  | unlocated | unsecured =>
    exact absurd ((congrArg offered cut).symm.trans (offered_passage _ _)) offered_ne_nil
  | left locates ready hands =>
    subst before
    exact locates.secured_passage ready (by simp [objectCalls, hands.quiet]) cut
  | went locates ready hands later =>
    subst before
    rw [passage_append] at cut
    refine locates.secured_passage ready ?_ cut
    rw [objectCalls_append, later.objectCalls_eq_nil rfl]
    simp [objectCalls, hands.quiet]

end Ways

/-- What is known of a producer that has come to its end, by what it has exchanged: the jobs that
were taken from it, the calls that it has made, and how it ends. -/
structure Adheres (plan : SyncPlan) (trail : List (Exchange (Productions SyncJob)))
    (result : Except SyncError Unit) : Prop where
  /-- The resolver is asked about the groups that it decides, in stored order. -/
  asked : (resolutions trail).map Prod.fst <+:
    (plan.groups.filter fun group => plan.isResolved group.source).map fun group =>
      (group.source, plan.document.ns)
  /-- The jobs begin the schedule, whatever the resolver says about groups that it was not asked
  about. -/
  within : ∀ unsaid, taken trail <+:
    plan.schedule plan.groups (plan.locations plan.groups (answers trail ++ unsaid))
  /-- If nothing interrupts and nothing fails, the producer ends well, all groups are found, and all
  their jobs are taken. -/
  complete : interrupted trail = false → (∀ error, .error error ∉ answers trail) →
    (∀ error, ¬ BucketCheck plan.bucket (objectCalls trail) (.error error)) →
    result = .ok () ∧
      (plan.locations plan.groups (answers trail)).length = plan.groups.length ∧
      taken trail = plan.schedule plan.groups (plan.locations plan.groups (answers trail))
  /-- If a group is not found, its error is the result, and all jobs of the groups before it are
  taken. -/
  unresolved : ∀ error, .error error ∈ answers trail → result = .error (.store error) ∧
    taken trail = plan.schedule plan.groups (plan.locations plan.groups (answers trail)) ∧
    ∃ group, plan.groups[(plan.locations plan.groups (answers trail)).length]? = some group ∧
      (resolutions trail).getLast? = some ((group.source, plan.document.ns), .error error)
  /-- The bucket is checked at most once, and the object store is asked for nothing else. -/
  checked : objectCalls trail = [] ∨
    ∃ verdict, BucketCheck plan.bucket (objectCalls trail) verdict
  /-- If the check fails, its error is the result, and no job is taken. -/
  unsecured : ∀ error, BucketCheck plan.bucket (objectCalls trail) (.error error) →
    result = .error (.storage error) ∧ taken trail = []
  /-- When a job is handed over, the check has been passed. -/
  secured : ∀ front job accepted back, trail = front ++ ⟨.queue job, accepted⟩ :: back →
    BucketCheck plan.bucket (objectCalls front) (.ok ())
  /-- An error is that of the resolver or that of the check. -/
  excused : ∀ error, result = .error error →
    (∃ cause, error = .store cause ∧ .error cause ∈ answers trail) ∨
      ∃ cause, error = .storage cause ∧
        BucketCheck plan.bucket (objectCalls trail) (.error cause)

/-- However it is answered, the producer of a plan comes to an end, and it adheres to the schedule
of the plan. -/
theorem produce_adheres (plan : SyncPlan) :
    (∀ rule, ∃ trail result, plan.produce.Leads trail (.done result) ∧
      Program.AnsweredBy rule trail) ∧
    ∀ trail result, plan.produce.Leads trail (.done result) → plan.Adheres trail result := by
  refine ⟨fun rule => plan.produce.exists_ended rule, fun trail result leads => ?_⟩
  have passes : plan.Passes false plan.groups trail result := produceGroups_passes leads
  refine ⟨passes.asked, passes.within, ?_, fun error => passes.unresolved, ?_, ?_,
    fun front job accepted back => passes.secured, ?_⟩
  · intro calm found checked
    have well : result = .ok () := by
      cases result with
      | ok => rfl
      | error error =>
        rcases passes.excused rfl with ⟨cause, -, told⟩ | ⟨cause, -, -, check⟩
        · exact absurd told (found cause)
        · exact absurd check (checked cause)
    exact ⟨well, passes.through calm well⟩
  · rcases passes.check with none | ⟨error, check, -⟩ | check
    · exact .inl none
    · exact .inr ⟨_, check⟩
    · exact .inr ⟨_, check⟩
  · intro error failed
    rcases passes.check with none | ⟨cause, check, ends, nothing⟩ | check
    · rw [none] at failed
      cases failed
    · cases failed.verdict_unique check
      exact ⟨ends, nothing⟩
    · cases failed.verdict_unique check
  · intro error failed
    rcases passes.excused failed with told | ⟨cause, -, same, check⟩
    · exact .inl told
    · exact .inr ⟨cause, same, check⟩

/-- A version that inherits from another one. -/
def heirDocument : Document :=
  { metadata := { Metadata.empty with name := some "ds-v2", ns := some "team-a" }
    spec := { dataset := { apiGroup := none, kind := "Dataset", name := "ds", ns := none }
              version := "v2", inheritedFrom := some "v1", released := false, fileGroups := [] }
    status := none }

/-- A copy of files of three sources: one that the resolver knows, the parent version, and one that
nobody knows. -/
def stumblingPlan : SyncPlan :=
  { mode := .copy
    document := heirDocument
    groups := [
      { source := FileTree.declaredReference ⟨"team-a", "raw"⟩
        files := [.blank "a.txt" .processing, .blank "kept.txt" .succeeded,
          .blank "sub/" .processing] },
      { source := heirDocument.lineageReference, files := [.blank "/x" .processing] },
      { source := FileTree.declaredReference ⟨"team-a", "unknown"⟩
        files := [.blank "b.txt" .processing] }]
    sizing := .standard }

/-- The jobs of the two groups that can be found. -/
def stumblingJobs : List SyncJob :=
  [{ source := some ⟨"raw-data", "a.txt"⟩
     destination := ⟨"team-a", "dataset/ds/v2/a.txt"⟩
     owner := ⟨"team-a", "raw"⟩ },
   { source := some ⟨"team-a", "dataset/ds/v1//x"⟩
     destination := ⟨"team-a", "dataset/ds/v2/x"⟩
     owner := ⟨"team-a", "inherited-from-v1"⟩ }]

/-- The law of producers, for a copy that makes its bucket and then does not find a group. -/
theorem stumblingPlan_adheres :
    ∃ trail, stumblingPlan.produce.Leads trail
        (.done (.error (.store (.notFound ⟨"team-a", "unknown"⟩)))) ∧
      stumblingPlan.Adheres trail (.error (.store (.notFound ⟨"team-a", "unknown"⟩))) ∧
      taken trail = stumblingJobs := by
  let resolve (name : String) (answer : Except StoreError String) :
      Exchange (Productions SyncJob) :=
    ⟨.call (.resolve (FileTree.declaredReference ⟨"team-a", name⟩) "team-a"), answer⟩
  let goOn : Exchange (Productions SyncJob) := ⟨.isStopping, false⟩
  let trail : List (Exchange (Productions SyncJob)) :=
    [goOn, resolve "raw" (.ok "raw-data"), ⟨.call (.object (.bucketExists "team-a")), .ok false⟩,
      ⟨.call (.object (.makeBucket "team-a")), .ok ()⟩, goOn, ⟨.queue stumblingJobs[0], true⟩, goOn,
      goOn, goOn, goOn, ⟨.queue stumblingJobs[1], true⟩, goOn,
      resolve "unknown" (.error (.notFound ⟨"team-a", "unknown"⟩))]
  have leads : stumblingPlan.produce.Leads trail
      (.done (.error (.store (.notFound ⟨"team-a", "unknown"⟩)))) :=
    .ask _ (.ask _ (.ask _ (.ask _ (.ask _ (.ask _ (.ask _ (.ask _ (.ask _ (.ask _ (.ask _
      (.ask _ (.ask _ (.here _)))))))))))))
  exact ⟨trail, leads, (produce_adheres stumblingPlan).2 trail _ leads, rfl⟩

end SyncPlan

end DatasetSync
