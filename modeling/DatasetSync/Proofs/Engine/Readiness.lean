import DatasetSync.Proofs.Engine.Statuses
import DatasetSync.Proofs.FileTree.Report

/-!
# What is stored about readiness

Nobody but the engine writes statuses here, and at first there is none. Two of its writers
put a report on readiness into a status: a run when it commits, and a look when it writes its
target. What a run presents to the document store is true of the tree that is written with it,
whatever became of its jobs. A look may enter new files under a report that was true before they
were entered. So a stored status that calls its version ready is true, or a look has put it under
this very key, and then it is true but for files about which nothing has been done yet.
-/

namespace DatasetSync

/-- The client leaves it to the engine to write statuses. -/
def ClientWrite.LeavesStatus : ClientWrite → Prop
  | .insert document => document.status = none
  | .patchStatus _ _ _ => False
  | _ => True

namespace DocumentStore

variable {store : DocumentStore} {key : QualifiedName} {document : Document} {status : Status}

/-- A status is stored. -/
def HasStatus (store : DocumentStore) (status : Status) : Prop :=
  ∃ key document, store.get? key = some document ∧ document.status = some status

/-- A client that leaves statuses to the engine leaves under every key the status that was there: it
edits no status, and a document that it creates has none. -/
theorem status_of_leaving {now : Timestamp} {write : ClientWrite} (leaves : write.LeavesStatus)
    (found : (store.write now write).get? key = some document)
    (reported : document.status = some status) :
    ∃ former, store.get? key = some former ∧ former.status = some status := by
  rcases status_write found with ⟨former, present, same⟩ | ⟨created, rfl, -, same⟩ |
    ⟨token, written, rfl, -⟩
  · exact ⟨former, present, same.symm.trans reported⟩
  · have unreported : created.status = none := leaves
    cases (unreported.symm.trans same.symm).trans reported
  · exact leaves.elim

end DocumentStore

namespace Engine

variable {policy : Policy} {history : List Transition} {before after finish : Engine}
  {event : Event} {transition : Transition} {key : QualifiedName} {token : String} {status : Status}

/-- Clients leave it to the engine to write statuses. -/
def Event.LeavesStatus : Event → Prop
  | .wrote write => write.LeavesStatus
  | _ => True

/-- A run presents a status to the document store, whether it is taken or refused. -/
def Transition.Commits (status : Status) (transition : Transition) : Prop :=
  ∃ number key token, transition.event = .ran number ∧
    transition.before.documentCall? transition.event = some (.patchStatus key token status)

/-- Every stored status that calls its version ready is true. -/
def ReadyIsTruthful (engine : Engine) : Prop :=
  ∀ status, engine.backends.documents.HasStatus status → status.Truthful

/-- A status that is stored under a key is true, or a look has put it there and it is true but for
new files. -/
def Accounted (history : List Transition) (key : QualifiedName) (status : Status) : Prop :=
  status.Truthful ∨
    (status.TruthfulButNew ∧ ∃ transition ∈ history, transition.event.Enters key status)

/-- A status that is accounted for is true but for new files, whoever has written it. -/
theorem Accounted.butNew (accounted : Accounted history key status) : status.TruthfulButNew := by
  rcases accounted with truthful | ⟨butNew, -⟩
  · exact truthful.butNew
  · exact butNew

/-- What is accounted for stays so while moves are added to the history. -/
theorem Accounted.concat (accounted : Accounted history key status) (transition : Transition) :
    Accounted (history ++ [transition]) key status := by
  rcases accounted with truthful | ⟨butNew, former, member, enters⟩
  · exact .inl truthful
  · exact .inr ⟨butNew, former, List.mem_append_left _ member, enters⟩

/-- What is known of all statuses that are stored, that were read, and that runs have presented. -/
structure Reported (history : List Transition) (engine : Engine) : Prop where
  stored : ∀ key document status, engine.stored? key = some document →
    document.status = some status → Accounted history key status
  seen : ∀ document ∈ engine.seen, ∀ status, document.status = some status →
    status.TruthfulButNew
  presented : ∀ transition ∈ history, ∀ status, transition.Commits status → status.Truthful

/-- What a run presents is true. It is about to write, and the only status that it can write then is
the one that it has made of its tree. -/
theorem Coherent.truthful_of_run (coherent : Coherent policy history before) {number : Nat}
    (patch : before.documentCall? (.ran number) = some (.patchStatus key token status)) :
    status.Truthful := by
  obtain ⟨run, found, calls⟩ := Option.bind_eq_some_iff.mp patch
  unfold ActiveRun.documentCall? at calls
  split at calls
  · rename_i made next stage
    obtain rfl : made = .patchStatus key token status := Option.some.inj calls
    obtain ⟨tree, position⟩ := (coherent.made number run found).position stage
    generalize runExchanges number history = trail at position
    cases position with
    | atWrite accepts => exact SyncPlan.truthful_commitStatus _ _ _
  · cases calls

/-- What a look presents is true but for new files, if that can be said of the version that the look
was given: it is the target of this version, and a target enters files only as new ones. -/
theorem Coherent.butNew_of_look (coherent : Coherent policy history before)
    (reported : Reported history before) {look : Nat} {document : Document}
    {next : Except StoreError Unit → Controlling (Except ReconcileError Next)}
    (asking : before.looks[look]? =
      some ⟨document, .asking (.ask (.call (.document (.patchStatus key token status))) next)⟩) :
    status.TruthfulButNew := by
  have leads := coherent.follows look document _ asking
  have known := reported.seen document (coherent.begun look document _ asking).1
  generalize exchanges look history = trail at leads
  cases Policy.looking_of_leads leads with
  | atCall spares => exact absurd rfl (spares _)
  | atTarget living prepared removed snapshot =>
    refine Document.truthfulButNew_target ?_
    cases stored : document.status with
    | none => simp [Document.statusOrInitial, stored, Status.TruthfulButNew, Status.initial,
        FileTree.allFiles]
    | some former => simpa [Document.statusOrInitial, stored] using known former stored

/-- After a move every stored status is accounted for. The status was there before the move, or a
look or a run has written it in the move, with success and under its own key. -/
theorem Reported.accounted (reported : Reported history before)
    (coherent : Coherent policy history before) (move : Step policy before event after)
    (leaves : event.LeavesStatus) {document : Document}
    (stored : after.stored? key = some document) (own : document.status = some status) :
    Accounted (history ++ [⟨before, event, after⟩]) key status := by
  have found : (before.documentsAfter event).get? key = some document :=
    coherent.documents move ▸ stored
  have former : ∀ version, before.stored? key = some version → version.status = some status →
      Accounted (history ++ [⟨before, event, after⟩]) key status :=
    fun version present same => (reported.stored key version status present same).concat _
  cases move with
  | write write =>
    obtain ⟨version, present, same⟩ := DocumentStore.status_of_leaving leaves found own
    exact former version present same
  | @call look given call next asking =>
    cases call with
    | object | resolve | clock => exact former document found own
    | document call =>
      obtain ⟨version, present, same | ⟨token, written, rfl, ok, -, same⟩⟩ :=
        DocumentStore.status_answer found
      · exact former version present (same.symm.trans own)
      · cases same.symm.trans own
        have answered : (before.backends.answer (.document (.patchStatus key token status))).1 =
            .ok () := ok
        exact .inr ⟨coherent.butNew_of_look reported asking, _, List.mem_concat_self, look, token,
          by rw [answered]⟩
  | @run number run active backends running move =>
    cases calls : before.documentCall? (.ran number) with
    | none =>
      simp only [documentsAfter, calls] at found
      exact former document found own
    | some call =>
      simp only [documentsAfter, calls] at found
      obtain ⟨version, present, same | ⟨token, written, rfl, -, -, same⟩⟩ :=
        DocumentStore.status_answer found
      · exact former version present (same.symm.trans own)
      · cases same.symm.trans own
        exact .inl (coherent.truthful_of_run calls)
  | _ => exact former document found own

/-- Every move keeps what is known of all statuses. What is read is a stored version, and what a run
presents is true by the position of the run. -/
theorem Reported.step (reported : Reported history before)
    (coherent : Coherent policy history before) (move : Step policy before event after)
    (leaves : event.LeavesStatus) : Reported (history ++ [⟨before, event, after⟩]) after := by
  refine ⟨?stored, ?seen, ?presented⟩
  case stored =>
    intro key document status stored own
    exact reported.accounted coherent move leaves stored own
  case seen =>
    intro document read status own
    rcases move.seen_cases read with former | ⟨rfl, key, found⟩
    · exact reported.seen document former status own
    · exact (reported.stored key document status found own).butNew
  case presented =>
    intro transition member status commits
    rcases List.mem_append.mp member with former | new
    · exact reported.presented transition former status commits
    · obtain rfl := List.mem_singleton.mp new
      obtain ⟨number, key, token, rfl, patch⟩ := commits
      exact coherent.truthful_of_run patch

/-- This is known in every open execution in which nobody but the engine writes statuses and at
first none is stored. -/
theorem reported_of_openExecution {backends : Backends} {registry : Registry}
    (unreported : ∀ status, ¬ backends.documents.HasStatus status)
    (execution : OpenExecution policy (idle backends registry []) history finish)
    (leaves : ∀ transition ∈ history, transition.event.LeavesStatus) :
    Reported history finish := by
  induction execution with
  | start =>
    refine ⟨fun key document status stored own =>
      absurd ⟨key, document, stored, own⟩ (unreported status), ?_, ?_⟩
    · intro document read
      cases read
    · intro transition member
      cases member
  | step past move ih =>
    have former := ih fun transition member => leaves transition (List.mem_append_left _ member)
    exact former.step (coherent_of_openExecution past) move (leaves _ List.mem_concat_self)
  | change objects table past ih =>
    exact ⟨(ih leaves).stored, (ih leaves).seen, (ih leaves).presented⟩

/-- If the status that is stored under a key calls its version ready, every file of it was synced or
skipped; or else a look has put this status under this key, with success, and the other files have
been entered and nothing has been done about them yet. Whatever a run commits is true. -/
theorem ready_is_truthful_but_new {backends : Backends} {registry : Registry}
    (unreported : ∀ status, ¬ backends.documents.HasStatus status)
    (execution : OpenExecution policy (idle backends registry []) history finish)
    (leaves : ∀ transition ∈ history, transition.event.LeavesStatus) :
    (∀ key document status, finish.stored? key = some document → document.status = some status →
      status.Truthful ∨
        (status.TruthfulButNew ∧ ∃ transition ∈ history, transition.event.Enters key status)) ∧
      ∀ transition ∈ history, ∀ status, transition.Commits status → status.Truthful :=
  have reported := reported_of_openExecution unreported execution leaves
  ⟨reported.stored, reported.presented⟩

/-- A document that declares no files, with labels and finalizer. -/
def growingDocument : Document :=
  { metadata := { Metadata.empty with
      name := some "ds-v1", ns := some "team-a"
      labels := some ((OrderedMap.empty.insert Document.versionLabel "v1").insert
        Document.ownerLabel "ds")
      finalizers := some [Document.finalizer] }
    spec := { dataset := { apiGroup := none, kind := "Dataset", name := "ds", ns := none }
              version := "v1", inheritedFrom := none, fileGroups := [], released := false }
    status := none }

/-- The growing document as it is first stored. -/
def growingVersion : Document := DocumentStore.withToken growingDocument "1"

/-- An edit of the growing document after a run has committed, by which it declares a file. -/
def grownDocument : Document :=
  { DocumentStore.withToken growingDocument "2" with
    spec := { growingDocument.spec with
      fileGroups := [{
        source := { apiGroup := none, kind := Reference.datasourceKind, name := "x", ns := none }
        paths := ["a.txt"] }] } }

/-- The grown document as it is stored. -/
def grownVersion : Document :=
  { DocumentStore.withToken grownDocument "3" with
    status := some
      { conditions := [.ready "2024-05-01T00:00:00+00:00" .true Condition.successReason ""]
        files := [] } }

/-- What a look at the grown version writes: the file is entered, and the version is still
called ready. -/
def grownStatus : Status :=
  (grownVersion.reconcile "2024-05-01T00:00:00+00:00" []).target

/-- What the look writes is not true: it calls the version ready and lists a file that is being
processed. -/
theorem grownStatus_untruthful : ¬ grownStatus.Truthful := by
  intro truthful
  have settled := truthful (by decide) (.blank "a.txt" .processing) (by decide)
  simp [FileRecord.blank, Phase.isSettled] at settled

/-- A run reports that a document without files is ready; then a file is declared, and a look
enters it. The file is recorded as being processed under the report that was made before. -/
theorem grown_under_report :
    ∃ history finish,
      OpenExecution default (idle ⟨.empty, .empty, default, "2024-05-01T00:00:00+00:00"⟩ .empty [])
        history finish ∧
      (∀ transition ∈ history, transition.event.LeavesStatus) ∧
      (∃ document, finish.stored? grownDocument.key = some document ∧
        document.status = some grownStatus) ∧
      ∃ transition ∈ history, ∃ status, transition.Commits status := by
  have created : Execution default
      (idle ⟨.empty, .empty, default, "2024-05-01T00:00:00+00:00"⟩ .empty []) _ _ :=
    Execution.start.step (.write (.insert growingDocument))
  have read := created.step (@Step.read default _ growingDocument.key growingVersion rfl)
  have scheduled := read.step (@Step.scheduleCopy default _ growingVersion .standard
    List.mem_cons_self)
  have ended := scheduled.step (@Step.run default _ 0 _ _ _ rfl (.conclude _ _ rfl))
  have reread := ended.step (@Step.run default _ 0 _ _ _ rfl (.call _ _ _ _))
  have clocked := reread.step (@Step.run default _ 0 _ _ _ rfl (.call _ _ _ _))
  have committed := clocked.step (@Step.run default _ 0 _ _ _ rfl (.call _ _ _ _))
  have edited := committed.step (.write (.update grownDocument))
  have seen := edited.step (@Step.read default _ grownDocument.key grownVersion rfl)
  have begun := seen.step (@Step.begin default _ grownVersion List.mem_cons_self)
  have timed := begun.step (@Step.call default _ 0 grownVersion .clock _ rfl)
  have entered := timed.step
    (@Step.call default _ 0 grownVersion (.document (.patchStatus _ _ _)) _ rfl)
  refine ⟨_, _, entered.open, ?leaves, ?stored, ?committed⟩
  case leaves =>
    simp [Event.LeavesStatus, ClientWrite.LeavesStatus, growingDocument]
  case stored =>
    exact ⟨{ DocumentStore.withToken grownVersion "4" with status := some grownStatus }, rfl, rfl⟩
  case committed =>
    exact ⟨_, List.mem_append_left _ (List.mem_append_left _ (List.mem_append_left _
      (List.mem_append_left _ (List.mem_append_left _ List.mem_concat_self)))),
      _, 0, growingDocument.key, "1", rfl, rfl⟩

/-- A version is called ready while a file of it has not been synced. The status that a look has
written is stored, and it is not true. -/
theorem ready_not_truthful :
    ∃ history finish,
      OpenExecution default (idle ⟨.empty, .empty, default, "2024-05-01T00:00:00+00:00"⟩ .empty [])
        history finish ∧
      (∀ transition ∈ history, transition.event.LeavesStatus) ∧ ¬ finish.ReadyIsTruthful := by
  obtain ⟨history, finish, execution, leaves, ⟨document, found, own⟩, -⟩ := grown_under_report
  exact ⟨history, finish, execution, leaves, fun truthful =>
    grownStatus_untruthful (truthful grownStatus ⟨_, document, found, own⟩)⟩

/-- The status that calls the version ready too early was put under the key of the document by a
look, and what the run had committed before was true. -/
theorem grown_status_entered :
    ∃ history finish,
      OpenExecution default (idle ⟨.empty, .empty, default, "2024-05-01T00:00:00+00:00"⟩ .empty [])
        history finish ∧
      ¬ grownStatus.Truthful ∧ grownStatus.TruthfulButNew ∧
      (∃ transition ∈ history, transition.event.Enters grownDocument.key grownStatus) ∧
      ∃ transition ∈ history, ∃ status, transition.Commits status ∧ status.Truthful := by
  obtain ⟨history, finish, execution, leaves, stored, committed⟩ := grown_under_report
  have unreported : ∀ status, ¬ (DocumentStore.empty).HasStatus status := by
    rintro status ⟨key, document, found, -⟩
    simp [DocumentStore.get?, DocumentStore.empty] at found
  obtain ⟨accounted, truthful⟩ := ready_is_truthful_but_new unreported execution leaves
  obtain ⟨document, found, own⟩ := stored
  obtain ⟨transition, member, status, commits⟩ := committed
  rcases accounted _ _ _ found own with truthful | ⟨butNew, entered⟩
  · exact absurd truthful grownStatus_untruthful
  · exact ⟨history, finish, execution, grownStatus_untruthful, butNew, entered, transition, member,
      status, commits, truthful transition member status commits⟩

end Engine

end DatasetSync
