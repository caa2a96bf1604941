import DatasetSync.Proofs.Controller.Look
import DatasetSync.Proofs.Store.Inheritance
import DatasetSync.Proofs.Sync.Footprint

/-!
# Which objects the engine can touch for a document

A look at a document copies no object, and removes only objects of the version: what a purge
removes it has listed before, and a listing has no other keys than those that were asked for. So
what a look does depends on how it is answered, and the law about looks is one about answers that
are as they should be.

A run adds and removes objects by its jobs, each of which concerns one place of the version. Hence
neither looks nor runs that are made for a document touch an object whose key is not one of the
version, in whichever bucket it lies.
-/

namespace DatasetSync

namespace Program

variable {interface : Interface} {α β : Type}
  {good : (request : interface.Request) → interface.Answer request → Prop}
  {allowed : interface.Request → Prop}

/-- As long as the answers are good, a program asks only for what is allowed. -/
def AsksGiven (good : (request : interface.Request) → interface.Answer request → Prop)
    (allowed : interface.Request → Prop) : Program interface α → Prop
  | .done _ => True
  | .ask request next =>
    allowed request ∧ ∀ answer, good request answer → (next answer).AsksGiven good allowed

/-- A program that asks only for what is allowed does so if the answers are good. -/
theorem AsksOnly.given {program : Program interface α} (asks : program.AsksOnly allowed) :
    program.AsksGiven good allowed := by
  induction program with
  | done value => trivial
  | ask request next ih => exact ⟨asks.1, fun answer _ => ih answer (asks.2 answer)⟩

/-- Two programs in sequence ask only for what both may ask for, if the answers to both are good. -/
theorem AsksGiven.bind {program : Program interface α} {next : α → Program interface β}
    (first : program.AsksGiven good allowed)
    (second : ∀ value, (next value).AsksGiven good allowed) :
    (program.bind next).AsksGiven good allowed := by
  induction program with
  | done value => exact second value
  | ask request rest ih => exact ⟨first.1, fun answer fine => ih answer (first.2 answer fine)⟩

/-- What is left of a program after good answers asks only for what the whole program may ask
for. -/
theorem AsksGiven.leads {program rest : Program interface α} {trail : List (Exchange interface)}
    (asks : program.AsksGiven good allowed) (leads : program.Leads trail rest)
    (fine : ∀ exchange ∈ trail, good exchange.request exchange.answer) :
    rest.AsksGiven good allowed := by
  induction leads with
  | here program => exact asks
  | ask answer later ih =>
    have now : good _ answer := fine _ List.mem_cons_self
    exact ih (asks.2 answer now) fun exchange member => fine exchange (List.mem_cons_of_mem _ member)

end Program

namespace Document

/-- The key is one of those of the version: it starts with the prefix of the version. -/
def HasKey (document : Document) (key : String) : Prop :=
  ∃ rest, key = Layout.versionPrefix document.datasetName document.spec.version ++ rest

/-- Neither the name of the dataset nor that of the version has a slash. -/
structure IsFlat (document : Document) : Prop where
  dataset : '/' ∉ document.datasetName.toList
  version : '/' ∉ document.spec.version.toList

/-- A key that starts with the prefix of a version is one of its keys. -/
theorem hasKey_of_startsWith {document : Document} {key : String}
    (starts : Text.startsWith
      (Layout.versionPrefix document.datasetName document.spec.version) key = true) :
    document.HasKey key := by
  obtain ⟨rest, stripped⟩ := Option.isSome_iff_exists.mp starts
  exact ⟨rest, Text.stripPrefix?_eq_some_iff.mp stripped⟩

/-- A key belongs to one version only, if the names have no slashes. With slashes in its names a
version can lie below another one. -/
theorem HasKey.unique {document other : Document} {key : String} (flat : document.IsFlat)
    (flat' : other.IsFlat) (has : document.HasKey key) (has' : other.HasKey key) :
    (document.datasetName, document.spec.version) = (other.datasetName, other.spec.version) := by
  obtain ⟨rest, rfl⟩ := has
  obtain ⟨rest', same⟩ := has'
  have tails : document.datasetName ++ "/" ++ (document.spec.version ++ "/" ++ rest) =
      other.datasetName ++ "/" ++ (other.spec.version ++ "/" ++ rest') := by
    simpa only [Layout.versionPrefix, String.append_assoc, String.append_right_inj] using same
  obtain ⟨dataset, tails'⟩ := Layout.append_slash_inj flat.dataset flat'.dataset tails
  obtain ⟨version, -⟩ := Layout.append_slash_inj flat.version flat'.version tails'
  rw [dataset, version]

end Document

namespace Call

/-- An answer that lists objects lists only those whose keys start as was asked for. -/
def ListsWithin : (call : Call) → call.Answer → Prop
  | .object (.listObjects _ leading _), .ok listed =>
    ∀ object ∈ listed, Text.startsWith leading object.key = true
  | _, _ => True

/-- The call copies no object, and removes none but objects of the version. -/
def StaysWithin (document : Document) : Call → Prop
  | .object (.copyObject _ _) => False
  | .object (.removeObject address) => document.HasKey address.key
  | _ => True

/-- What is listed starts as was asked for, whether or not the listing goes into depth. -/
theorem startsWith_of_listed {store : ObjectStore} {bucket leading : String} {recursive : Bool}
    {listed : List ObjectInfo} (answered : store.listObjects bucket leading recursive = .ok listed) :
    ∀ object ∈ listed, Text.startsWith leading object.key = true := by
  obtain ⟨-, -, found⟩ := ObjectStore.bind_eq_ok.mp answered
  obtain ⟨keys, -, same⟩ := ObjectStore.bind_eq_ok.mp found
  cases same
  intro object member
  obtain ⟨key, kept, rfl⟩ := List.mem_map.mp member
  obtain ⟨rest, stripped, -⟩ := (Option.any_eq_true _ _).mp (List.mem_filter.mp kept).2
  rw [Text.startsWith, stripped]
  rfl

/-- The stores list what was asked for: every key that is listed starts with the given prefix. Other
calls list nothing. -/
theorem listsWithin_answer (call : Call) (backends : Backends) :
    call.ListsWithin (backends.answer call).1 := by
  cases call with
  | document made => trivial
  | resolve source fallback => trivial
  | clock => trivial
  | object made =>
    cases made with
    | bucketExists | makeBucket | copyObject | removeObject => trivial
    | listObjects bucket leading recursive =>
      have answered : (backends.answer (.object (.listObjects bucket leading recursive))).1 =
          backends.objects.listObjects bucket leading recursive := rfl
      rw [answered]
      cases listed : backends.objects.listObjects bucket leading recursive with
      | error error => trivial
      | ok objects => exact startsWith_of_listed listed

/-- A call that touches no object stays within every version. -/
theorem SparesObjects.staysWithin {call : Call} (spares : call.SparesObjects)
    (document : Document) : call.StaysWithin document := by
  cases call with
  | object made =>
    cases made with
    | copyObject | removeObject => cases spares
    | bucketExists | makeBucket | listObjects => trivial
  | document | resolve | clock => trivial

/-- A call that stays within a version leaves all objects of other keys where they are, in every
bucket. -/
theorem StaysWithin.holds_iff {call : Call} {document : Document} {place : ObjectAddress}
    (stays : call.StaysWithin document) (foreign : ¬ document.HasKey place.key)
    (backends : Backends) :
    (backends.answer call).2.objects.Holds place ↔ backends.objects.Holds place := by
  by_cases spares : call.SparesObjects
  · exact (spares.rests backends).holds place
  cases call with
  | document | resolve | clock => exact absurd trivial spares
  | object made =>
    cases made with
    | bucketExists | makeBucket | listObjects => exact absurd trivial spares
    | copyObject destination source => exact stays.elim
    | removeObject address =>
      have distinct : place ≠ address := by
        rintro rfl
        exact foreign stays
      have removal := backends.objects.holds_removeObject address place
      exact removal.trans (and_iff_left fun removed => distinct removed.2)

end Call

namespace Control

/-- A control is answered as it should be: listings have only the keys that were asked for. -/
def ListsWithin : (control : Control) → control.Answer → Prop
  | .call made, answer => made.ListsWithin answer
  | _, _ => True

/-- The control makes no call that touches objects of other versions. -/
def StaysWithin (document : Document) : Control → Prop
  | .call made => made.StaysWithin document
  | _ => True

/-- A control that touches no objects stays within every version. -/
theorem SparesObjects.staysWithin {control : Control} (spares : control.SparesObjects)
    (document : Document) : control.StaysWithin document := by
  cases control with
  | call made => exact Call.SparesObjects.staysWithin spares document
  | sync | launch | stop | await => trivial

end Control

/-- A program of calls asks for the same when the controller carries it out, and answers are good
for the one if they are for the other. -/
theorem Controlling.calling_given {α : Type} {program : Calling α} {document : Document}
    (stays : program.AsksGiven Call.ListsWithin (Call.StaysWithin document)) :
    (calling program).AsksGiven Control.ListsWithin (Control.StaysWithin document) := by
  induction program with
  | done value => trivial
  | ask call next ih => exact ⟨stays.1, fun answer fine => ih answer (stays.2 answer fine)⟩

namespace Policy

variable {policy : Policy} {document : Document}

/-- Listed objects that are removed are objects of the version if all keys are. -/
theorem removeAll_stays {bucket : String} {keys : List String}
    (own : ∀ key ∈ keys, document.HasKey key) :
    (removeAll bucket keys).AsksOnly (Call.StaysWithin document) := by
  induction keys with
  | nil => trivial
  | cons key keys ih =>
    refine ⟨own key List.mem_cons_self, fun answer => ?_⟩
    cases answer with
    | error error => trivial
    | ok => exact ih fun key member => own key (List.mem_cons_of_mem _ member)

/-- A purge removes objects of the version only, if what it is told to be listed starts as it
has asked for. -/
theorem purgeUntracked_stays (tracked : FileTree) :
    (purgeUntracked document tracked).AsksGiven Call.ListsWithin (Call.StaysWithin document) := by
  refine ⟨trivial, fun answer _ => ?_⟩
  rcases answer with error | _ | _
  · trivial
  · trivial
  · refine ⟨trivial, fun answer fine => ?_⟩
    cases answer with
    | error error => trivial
    | ok listed =>
      have own : ∀ key ∈ (listed.map ObjectInfo.key).filter
          (fun key => !(document.trackedKeys tracked).contains key), document.HasKey key := by
        intro key member
        obtain ⟨object, present, rfl⟩ := List.mem_map.mp (List.mem_of_mem_filter member)
        exact Document.hasKey_of_startsWith (fine object present)
      exact (removeAll_stays own).given

/-- Cleaning up a document removes objects of the version only, but for the run that it starts. -/
theorem cleanup_stays :
    (policy.cleanup document).AsksGiven Control.ListsWithin (Control.StaysWithin document) := by
  refine (Controlling.calling_given (purgeUntracked_stays _)).bind fun purged => ?_
  cases purged with
  | error error => trivial
  | ok =>
    refine ⟨trivial, fun answer _ => ?_⟩
    cases answer <;> trivial

/-- A look touches objects of its version only, but for the runs that it starts. It removes what was
listed, and what was listed lies under the prefix that it has asked for. -/
theorem reconcile_stays :
    (policy.reconcile document).AsksGiven Control.ListsWithin (Control.StaysWithin document) := by
  by_cases deleting : document.isDeleting = true
  · unfold reconcile
    split
    · trivial
    rw [if_pos deleting, finalize_eq]
    split
    · refine ⟨trivial, fun stopped _ => ?_⟩
      cases stopped with
      | none => exact cleanup_stays
      | some run => exact ⟨trivial, fun _ _ => cleanup_stays⟩
    · trivial
  · have spares := policy.reconcile_sparesObjects (Bool.not_eq_true _ ▸ deleting)
    exact (spares.imp fun control spares => spares.staysWithin document).given

end Policy

/-- A job touches the object of its destination only, whether it copies or removes. -/
theorem SyncJob.holds_of_performed {job : SyncJob} {before after : Backends}
    {result : Except StorageError Unit} {place : ObjectAddress}
    (performed : Calling.perform Backends.answer job.perform before = (result, after))
    (elsewhere : place ≠ job.destination) :
    after.objects.Holds place ↔ before.objects.Holds place := by
  cases origin : job.source with
  | none =>
    have removed : after.objects = (before.objects.answer (.removeObject job.destination)).2 := by
      rw [SyncJob.perform, origin] at performed
      exact (congrArg (fun outcome => outcome.2.objects) performed).symm
    rw [removed, before.objects.holds_removeObject job.destination place]
    exact and_iff_left fun gone => elsewhere gone.2
  | some source =>
    rw [SyncPlan.perform_copy origin] at performed
    cases performed
    rw [before.objects.holds_copyObject job.destination source place]
    exact or_iff_left fun copied => elsewhere copied.2

namespace SyncPlan

variable {plan : SyncPlan} {others : Backends → Backends → Prop} {first backends backends' : Backends}
  {history : List Turn} {run run' : ActiveRun} {pool : SyncPool} {job : SyncJob}

/-- The destination of a job that runs is an object of the version that the run was made for. -/
theorem Course.hasKey_of_running (course : plan.Course others first history run backends)
    (stage : run.stage = .working pool) (running : job ∈ pool.floor.running) :
    plan.document.HasKey job.destination.key := by
  have reachable := course.reachable stage
  obtain ⟨conserved, -⟩ := reachable.honors plan.delivers_produce
  have accepted : job ∈ pool.floor.accepted :=
    conserved.mem_iff.mpr (by simp [Pool.Floor.stations, running])
  obtain ⟨i, j, group, file, location, -, -, -, made⟩ :=
    (reachable.accepted plan.produce_makes).2 job accepted
  obtain ⟨-, -, rfl⟩ := jobFor?_eq_some_iff.mp made
  exact ⟨Layout.relative file.path, rfl⟩

/-- A move of a run leaves all objects of other versions where they are, since the destinations of
its jobs have keys of its own version. -/
theorem Course.holds_foreign (course : plan.Course others first history run backends)
    (move : ActiveRun.Step Backends.answer (run, backends) (run', backends'))
    {place : ObjectAddress} (foreign : ¬ plan.document.HasKey place.key) :
    backends'.objects.Holds place ↔ backends.objects.Holds place := by
  rcases course.hasMade.rests_or_performs move with
    rests | ⟨pool, stage, job, running, result, performed⟩
  · exact rests.holds place
  · have own := course.hasKey_of_running stage running
    have elsewhere : place ≠ job.destination := by
      rintro rfl
      exact foreign own
    exact SyncJob.holds_of_performed performed elsewhere

end SyncPlan

end DatasetSync
