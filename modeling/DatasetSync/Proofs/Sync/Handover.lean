import DatasetSync.Pool.Step
import DatasetSync.Proofs.Program.Trail
import DatasetSync.Sync.Job

/-!
# The jobs that a producer hands over

Whatever it is answered, the producer of a plan hands over only jobs of the files of the
plan, and it touches no document and no object. If it is not stopped and does not give up, it
hands over all of them, in stored order. The second law is stated for removals: their jobs do
not depend on any answer.
-/

namespace DatasetSync

namespace Pool

variable {J R E α : Type}

/-- A request of a producer that touches neither documents nor objects, and that hands over
only jobs of a given kind. -/
def Production.Within (allowed : J → Prop) : Production J → Prop
  | .call made => made.IsQuiet
  | .isStopping => True
  | .queue job => allowed job

/-- What holds of a producer that asks for a call, as soon as it holds after every answer, holds of a
producer that carries out a program of calls, as soon as it holds of what follows the program. The
induction is on the program, and gathers the exchanges that lead to its value. -/
theorem Producing.calling_bind_of {P : Producer J E → Prop}
    (asked : ∀ (call : Call) (rest : call.Answer → Producer J E),
      (∀ answer, P (rest answer)) → P (.ask (.call call) rest))
    {program : Calling α} {next : α → Producer J E}
    (after : ∀ calls value, program.Leads calls (.done value) → P (next value)) :
    P ((Producing.calling program).bind next) := by
  induction program with
  | done value => exact after [] value (.here _)
  | ask call inner ih =>
    refine asked call _ fun answer => ?_
    refine ih answer fun calls value leads => after (⟨call, answer⟩ :: calls) value ?_
    exact @Program.Leads.ask Calls α call inner calls _ answer leads

/-- A program of quiet calls, carried out by a producer, and what follows the values that it
can come to. -/
theorem Producing.calling_bind_within {β : Type} {allowed : J → Prop} {program : Calling α}
    {next : α → Producing J β} (quiet : program.AsksOnly Call.IsQuiet)
    (after : ∀ calls value, program.Leads calls (.done value) →
      (next value).AsksOnly (Production.Within allowed)) :
    ((Producing.calling program).bind next).AsksOnly (Production.Within allowed) := by
  induction program with
  | done value => exact after [] value (.here _)
  | ask call inner ih =>
    refine ⟨quiet.1, fun answer => ih answer (quiet.2 answer) fun calls value leads => ?_⟩
    refine after (⟨call, answer⟩ :: calls) value ?_
    exact @Program.Leads.ask Calls α call inner calls _ answer leads

/-- A move of the pool leads the producer further along its program, or leaves it where it is. -/
theorem Step.producer_asks {sizing : Sizing} {allowed : Production J → Prop}
    {before after : State J R E} {event : Event J R} (move : Step sizing before event after)
    (asks : before.producer.AsksOnly allowed) : after.producer.AsksOnly allowed := by
  cases move with
  | call call next answer => exact asks.2 answer
  | observe next => exact asks.2 _
  | enqueue job next room => exact asks.2 true
  | refuse job next => exact asks.2 false
  | start | finish | deliver | discard | cancel => exact asks

/-- A producer that is not stopped and does not give up hands over a list of jobs and then
ends. -/
def Owes : List J → Producer J E → Prop
  | owed, .done (.ok ()) => owed = []
  | _, .done (.error _) => True
  | owed, .ask (.call _) next => ∀ answer, Owes owed (next answer)
  | owed, .ask .isStopping next => Owes owed (next false)
  | owed, .ask (.queue job) next => ∃ later, owed = job :: later ∧ Owes later (next true)

/-- Calls hand over nothing: what is owed before them is owed after them. -/
theorem owes_calling {owed : List J} {program : Calling α} {next : α → Producer J E}
    (after : ∀ calls value, program.Leads calls (.done value) → Owes owed (next value)) :
    Owes owed ((Producing.calling program).bind next) :=
  Producing.calling_bind_of (fun _ _ always => always) after

end Pool

namespace SyncPlan

open Pool

/-- A job of one of the files of a plan. -/
def HasJob (plan : SyncPlan) (job : SyncJob) : Prop :=
  ∃ group ∈ plan.groups, ∃ file ∈ group.files, ∃ location,
    plan.jobFor? location group.source file = some job

/-- The search for the files of a source can come to a location, given suitable answers. -/
def CanLocate (plan : SyncPlan) (source : Reference) (location : Option Location) : Prop :=
  ∃ calls, (plan.locate? source).Leads calls (.done (.ok location))

/-- The jobs of the files of groups that are removed. -/
def removalsOf (plan : SyncPlan) (groups : FileTree) : List SyncJob :=
  groups.flatMap fun group => group.files.filterMap (plan.jobFor? none group.source)

/-- The jobs of a removal. -/
def removals (plan : SyncPlan) : List SyncJob := plan.removalsOf plan.groups

/-- A place of one of the files of a removal. -/
def Hits (plan : SyncPlan) (place : ObjectAddress) : Prop :=
  ∃ job ∈ plan.removals, job.destination = place

/-- The preparation of a group is quiet: it neither copies nor removes an object, and it writes no
document. -/
theorem prepare_quiet (plan : SyncPlan) (source : Reference) (checked : Bool) :
    (plan.prepare source checked).AsksOnly Call.IsQuiet := by
  have located : (plan.locate? source).AsksOnly Call.IsQuiet := by
    unfold locate? locate
    cases plan.mode with
    | remove => trivial
    | copy =>
      dsimp only
      split
      · trivial
      · refine ⟨by simp [Call.IsQuiet, Call.SparesDocuments, Call.SparesObjects], fun answer => ?_⟩
        cases answer <;> trivial
  have ensured : plan.ensureBucket.AsksOnly Call.IsQuiet := by
    refine ⟨by simp [Call.IsQuiet, Call.SparesDocuments, Call.SparesObjects], fun answer => ?_⟩
    rcases answer with _ | _ | _
    · trivial
    · refine ⟨by simp [Call.IsQuiet, Call.SparesDocuments, Call.SparesObjects], fun answer => ?_⟩
      cases answer <;> trivial
    · trivial
  refine located.bind fun location => ?_
  cases location with
  | error error => trivial
  | ok location =>
    cases checked with
    | true => trivial
    | false => exact ensured.bind fun _ => trivial

/-- The jobs that are handed over for files are jobs of these files, made for the place that was
found. -/
theorem produceFiles_within {plan : SyncPlan} {location : Option Location} {source : Reference}
    {allowed : SyncJob → Prop} {files : List FileRecord}
    (jobs : ∀ file ∈ files, ∀ job, plan.jobFor? location source file = some job → allowed job) :
    (plan.produceFiles location source files).AsksOnly (Production.Within allowed) := by
  induction files with
  | nil => trivial
  | cons file files ih =>
    have later := ih fun other member => jobs other (List.mem_cons_of_mem _ member)
    refine ⟨trivial, fun stopping => ?_⟩
    cases stopping with
    | true => trivial
    | false =>
      cases made : plan.jobFor? location source file with
      | none => simpa [made] using later
      | some job =>
        have allow : allowed job := jobs file List.mem_cons_self job made
        have handed : ((Producing.queue job).bind fun taken =>
            if taken = true then plan.produceFiles location source files
            else .done false).AsksOnly (Production.Within allowed) := by
          refine ⟨allow, fun taken => ?_⟩
          cases taken
          · trivial
          · exact later
        simpa [made] using handed

/-- The location that the preparation of a group comes to is one that the search for its
files can come to. -/
theorem canLocate_of_prepare {plan : SyncPlan} {source : Reference} {checked : Bool}
    {calls : List (Exchange Calls)} {location : Option Location}
    (leads : (plan.prepare source checked).Leads calls (.done (.ok location))) :
    plan.CanLocate source location := by
  obtain ⟨first, second, value, rfl, located, after⟩ := Program.bind_ended leads
  cases value with
  | error error =>
    obtain ⟨-, impossible⟩ := Program.done_leads_iff.mp after
    cases impossible
  | ok found =>
    refine ⟨first, ?_⟩
    cases checked with
    | true =>
      obtain ⟨-, same⟩ := Program.done_leads_iff.mp after
      cases same
      exact located
    | false =>
      have ensuring : (plan.ensureBucket.bind fun made =>
          .done (made.map fun () => found)).Leads second (.done (.ok location)) := after
      obtain ⟨third, fourth, ensured, rfl, -, final⟩ := Program.bind_ended ensuring
      · obtain ⟨-, same⟩ := Program.done_leads_iff.mp final
        cases ensured <;> cases same
        exact located

/-- The jobs that are handed over for groups are jobs of their files, made for a place that can be
found for the group. -/
theorem produceGroups_within {plan : SyncPlan} {allowed : SyncJob → Prop} {groups : FileTree}
    (checked : Bool)
    (jobs : ∀ group ∈ groups, ∀ file ∈ group.files, ∀ location job,
      plan.CanLocate group.source location →
        plan.jobFor? location group.source file = some job → allowed job) :
    (plan.produceGroups groups checked).AsksOnly (Production.Within allowed) := by
  induction groups generalizing checked with
  | nil => trivial
  | cons group groups ih =>
    have later := ih true fun other member => jobs other (List.mem_cons_of_mem _ member)
    have own := jobs group List.mem_cons_self
    refine ⟨trivial, fun stopping => ?_⟩
    cases stopping with
    | true => trivial
    | false =>
      refine Producing.calling_bind_within (plan.prepare_quiet group.source checked)
        fun calls location leads => ?_
      cases location with
      | error error => trivial
      | ok location =>
        have located := canLocate_of_prepare leads
        have handed := produceFiles_within fun file member job =>
          own file member location job located
        refine handed.bind fun going => ?_
        cases going
        · trivial
        · exact later

/-- The producer of a plan hands over only jobs that the plan has, and its calls are quiet. -/
theorem produce_within (plan : SyncPlan) :
    plan.produce.AsksOnly (Production.Within plan.HasJob) :=
  produceGroups_within false fun group listed file member location _ _ made =>
    ⟨group, listed, file, member, location, made⟩

/-- The producer owes the jobs of files that are removed, in their order, and then what comes
after. -/
theorem owes_produceFiles {plan : SyncPlan} {source : Reference} {owed : List SyncJob}
    {next : Bool → Producer SyncJob SyncError} (files : List FileRecord)
    (after : Owes owed (next true)) :
    Owes (files.filterMap (plan.jobFor? none source) ++ owed)
      ((plan.produceFiles none source files).bind next) := by
  induction files with
  | nil => exact after
  | cons file files ih =>
    cases made : plan.jobFor? none source file with
    | none =>
      rw [List.filterMap_cons_none made]
      have going : Owes (files.filterMap (plan.jobFor? none source) ++ owed)
          (.ask .isStopping fun stopping =>
            (if stopping = true then .done false
              else plan.produceFiles none source files).bind next) := ih
      simpa [produceFiles, made, Producing.isStopping, Program.request] using going
    | some job =>
      rw [List.filterMap_cons_some made]
      have handed : Owes (job :: (files.filterMap (plan.jobFor? none source) ++ owed))
          (.ask .isStopping fun stopping =>
            (if stopping = true then .done false
              else (Producing.queue job).bind fun taken =>
                if taken = true then plan.produceFiles none source files
                else .done false).bind next) := ⟨_, rfl, ih⟩
      simpa [produceFiles, made, Producing.isStopping, Program.request] using handed

/-- Where files are removed, the preparation of a group finds no location, as it looks for none. -/
theorem prepare_removes {plan : SyncPlan} {source : Reference} {checked : Bool}
    {calls : List (Exchange Calls)} {location : Option Location} (removes : plan.mode = .remove)
    (leads : (plan.prepare source checked).Leads calls (.done (.ok location))) :
    location = none := by
  have nowhere : plan.locate? source = .done (.ok none) := by simp [locate?, removes]
  rw [prepare, nowhere] at leads
  cases checked with
  | true =>
    obtain ⟨-, same⟩ := Program.done_leads_iff.mp leads
    cases same
    rfl
  | false =>
    have ensuring : (plan.ensureBucket.bind fun made =>
        .done (made.map fun () => none)).Leads calls (.done (.ok location)) := leads
    rcases Program.bind_leads_iff.mp ensuring with
      ⟨call, left, -, same⟩ | ⟨first, second, ensured, rfl, -, after⟩
    · cases same
    · obtain ⟨-, same⟩ := Program.done_leads_iff.mp after
      cases ensured <;> cases same
      rfl

/-- The producer owes the jobs of all groups that are removed, in their order, unless it fails on
its way. -/
theorem owes_produceGroups {plan : SyncPlan} (removes : plan.mode = .remove)
    (groups : FileTree) (checked : Bool) :
    Owes (plan.removalsOf groups) (plan.produceGroups groups checked) := by
  induction groups generalizing checked with
  | nil => rfl
  | cons group groups ih =>
    refine owes_calling fun calls location leads => ?_
    cases location with
    | error error => trivial
    | ok location =>
      have nowhere : location = none := prepare_removes removes leads
      subst nowhere
      exact owes_produceFiles group.files (ih true)

/-- The producer of a removal hands over the jobs of all its files, unless it is stopped or
gives up. -/
theorem owes_produce {plan : SyncPlan} (removes : plan.mode = .remove) :
    Owes plan.removals plan.produce :=
  owes_produceGroups removes plan.groups false

end SyncPlan

end DatasetSync
