import DatasetSync.Proofs.Engine.Courses
import DatasetSync.Proofs.Engine.Snapshots
import DatasetSync.Proofs.Store.Statuses

/-!
# What happens to the status of a document

A document is edited while the engine is at work. As long as nobody creates it anew, and nobody but
the engine writes its status, a move can do two things to the files that are recorded of it: a look
replaces them by those of a target, and a run by the tree of its results. Both start from the version
that is replaced. The look was given this very version. The run was made for it: by somebody else,
who has read it, or by a look that has found nothing to remove, and then for its target.
-/

namespace DatasetSync

/-- The client neither creates the document nor writes its status. -/
def ClientWrite.Edits (key : QualifiedName) : ClientWrite → Prop
  | .insert document => document.key ≠ key
  | .patchStatus patched _ _ => patched ≠ key
  | _ => True

/-- After an edit a document has the status that it had under the same key. An edit neither creates
the document nor patches its status, and no other write touches a status. -/
theorem ClientWrite.Edits.status {store : DocumentStore} {key : QualifiedName} {version : Document}
    {now : Timestamp} {write : ClientWrite} (edits : write.Edits key)
    (found : (store.write now write).get? key = some version) :
    ∃ former, store.get? key = some former ∧ version.status = former.status := by
  rcases DocumentStore.status_write found with kept | ⟨created, rfl, own, -⟩ |
    ⟨token, status, rfl, -⟩
  · exact kept
  · exact absurd own edits
  · exact absurd rfl edits

namespace SyncPlan

variable {plan : SyncPlan} {others : Backends → Backends → Prop} {first backends : Backends}
  {history : List Turn} {run : ActiveRun}

/-- At any time the tree of a run is what completions have made of the files of its document. -/
theorem Course.tree_eq (course : plan.Course others first history run backends) :
    ∃ completions, run.tree =
      recordAll plan.document.datasetName completions plan.document.files := by
  induction course with
  | start => exact ⟨[], rfl⟩
  | @work history pool pool' tree tree' before after event past move effect ih =>
    obtain ⟨completions, same⟩ := ih
    cases effect with
    | internal | called | executed => exact ⟨completions, same⟩
    | delivered job result =>
      refine ⟨completions ++ [⟨job, result, before.now⟩], ?_⟩
      rw [recordAll_append, ← same]
      rfl
  | conclude past ended ih => exact ih
  | call past ih => exact ih
  | @cancel history run backends past ih =>
    have same : run.cancel.tree = run.tree := by
      unfold ActiveRun.cancel
      split <;> rfl
    rw [same]
    exact ih
  | change past change ih => exact ih

/-- A run that is about to write a status writes its tree. -/
theorem Course.files_of_writing (course : plan.Course others first history run backends)
    {key : QualifiedName} {token : String} {status : Status}
    {next : Except StoreError Unit → Calling (Except SyncError RunOutcome)}
    (stage : run.stage = .concluding (.ask (.document (.patchStatus key token status)) next)) :
    status.files = run.tree := by
  obtain ⟨produced, cancelled, leads, -⟩ := course.concluding stage
  generalize exchanges history = trail at leads
  cases concluding_of_leads leads with
  | atWrite accepts => rfl

end SyncPlan

namespace Engine

variable {policy : Policy} {history : List Transition} {before after finish : Engine} {event : Event}
  {version version' : Document} {plan : SyncPlan} {origin : RunOrigin}

/-- Clients only edit the document. -/
def Event.Edits (key : QualifiedName) : Event → Prop
  | .wrote write => write.Edits key
  | _ => True

/-- A look replaces the status of a document by a target. -/
def Event.Enters (key : QualifiedName) (target : Status) (event : Event) : Prop :=
  ∃ look token, event = .asked look (.call (.document (.patchStatus key token target))) (.ok ())

/-- A token names one of the versions that were read: two of them that bear it are one. -/
theorem OpenExecution.seen_unique {backends : Backends} {registry : Registry}
    (sound : backends.documents.Sound)
    (execution : OpenExecution policy (idle backends registry []) history finish)
    (seen : version ∈ finish.seen) (seen' : version' ∈ finish.seen)
    (token : version'.versionToken = version.versionToken) : version' = version := by
  induction execution with
  | start => cases seen
  | step past move ih =>
    have recalls := (snapshots_of_openExecution sound past).seen
    rcases move.seen_cases seen with former | ⟨read, key, found⟩ <;>
      rcases move.seen_cases seen' with former' | ⟨read', key', found'⟩
    · exact ih former former'
    · exact ((recalls version former).same key' version' found' token).2
    · exact ((recalls version' former').same key version found token.symm).2.symm
    · rw [read] at read'
      cases read'
      rfl
  | change objects table past ih => exact ih seen seen'

/-- What a copy run is to copy: the files of the version that it was made for, or the target of a
look that was given this version and has found nothing to remove. That nothing is left to remove is
not said by the list of positions of a look, so it is read off the program here. -/
theorem Coherent.copies (coherent : Coherent policy history before)
    (planned : Planned policy history before version plan origin) (copies : plan.mode = .copy) :
    plan.groups = plan.document.files ∧
      (plan.document.files = version.files ∨
        ∃ look now lineage, (∃ transition ∈ history, transition.event = .began look version) ∧
          (version.reconcile now lineage).deleted = [] ∧
          plan.document.files = (version.reconcile now lineage).target.files) := by
  cases planned with
  | look present earlier leads => cases Policy.looking_of_leads leads <;> cases copies
  | @launched look stage trail key id next present earlier leads =>
    have living : version.isDeleting = false := by
      cases Policy.looking_of_leads leads with
      | atLaunch living => exact living
    have asks := (Policy.reconcile_asksLiving living).leads leads
    obtain ⟨now, lineage, removed, rfl⟩ := asks.1
    have begun := (coherent.begun look version stage present).2
    exact ⟨rfl, .inr ⟨look, now, lineage, begun, removed, rfl⟩⟩
  | copy sizing same =>
    rw [same]
    exact ⟨rfl, .inl rfl⟩
  | removal deleted sizing same =>
    rw [same] at copies
    cases copies

/-- What a move makes of the recorded files of a version. -/
inductive StatusMove (policy : Policy) (history : List Transition) (before : Engine)
    (event : Event) (version : Document) : FileTree → Prop
  | kept : StatusMove policy history before event version version.files
  /-- A look that was given the version replaces its status by a target. -/
  | entered {look : Nat} {now : Timestamp} {lineage : List String}
      (begun : ∃ transition ∈ history, transition.event = .began look version)
      (enters : event.Enters version.key (version.reconcile now lineage).target) :
      StatusMove policy history before event version (version.reconcile now lineage).target.files
  /-- A copy run that was made for the version writes its results. -/
  | committed {plan : SyncPlan} {origin : RunOrigin} (completions : List SyncPlan.Completion)
      (planned : Planned policy history before version plan origin) (copies : plan.mode = .copy) :
      StatusMove policy history before event version
        (SyncPlan.recordAll plan.document.datasetName completions plan.document.files)

/-- A look that replaces the status of a stored version was given that version, since it presents
the token of what it was given. -/
theorem Coherent.entered_of_call (coherent : Coherent policy history before)
    (snapshots : Snapshots history before) {look : Nat} {document : Document} {token : String}
    {status : Status} {key : QualifiedName}
    {next : Except StoreError Unit → Controlling (Except ReconcileError Next)}
    (asking : before.looks[look]? =
      some ⟨document, .asking (.ask (.call (.document (.patchStatus key token status))) next)⟩)
    (found : before.stored? key = some version) (current : version.versionToken = some token)
    (enters : event.Enters key status) :
    StatusMove policy history before event version status.files := by
  have leads : (policy.reconcile document).Leads (exchanges look history)
    (.ask (.call (.document (.patchStatus key token status))) next) :=
      coherent.follows look document _ asking
  obtain ⟨seen, begun⟩ := coherent.begun look document _ asking
  have recalls := snapshots.seen document seen
  generalize exchanges look history = trail at leads
  cases Policy.looking_of_leads leads with
  | atCall spares => exact absurd rfl (spares _)
  | atTarget living prepared removed snapshot =>
    obtain ⟨-, rfl⟩ := recalls.same _ version found (current.trans snapshot.symm)
    exact .entered begun enters

/-- A run that replaces the status of a stored version was made for that version: it was made for a
version with the token under which it writes, and this token is stored. -/
theorem Coherent.committed_of_call (coherent : Coherent policy history before)
    (snapshots : Snapshots history before) {number : Nat} {run : EngineRun} {token : String}
    {status : Status} {key : QualifiedName}
    {next : Except StoreError Unit → Calling (Except SyncError RunOutcome)}
    (present : before.runs[number]? = some run) (followed : Followed history before number run)
    (stage : run.active.stage =
      .concluding (.ask (.document (.patchStatus key token status)) next))
    (found : before.stored? key = some version) (current : version.versionToken = some token) :
    StatusMove policy history before event version status.files := by
  obtain ⟨first, turns, course, -⟩ := followed
  obtain ⟨completions, tree⟩ := course.tree_eq
  obtain ⟨document, seen, planned⟩ := coherent.planned number run present
  have accepted : run.active.plan.document.versionToken = some token ∧
      run.active.plan.mode ≠ .remove := by
    obtain ⟨tree, position⟩ := (coherent.made number run present).position stage
    generalize runExchanges number history = trail at position
    cases position with
    | atWrite accepts => exact ⟨accepts.snapshot, accepts.copies⟩
  have made : document.versionToken = some token := by
    have same := planned.document
    rw [same] at accepted
    exact accepted.1
  obtain ⟨-, rfl⟩ := (snapshots.seen document seen).same key version found
    (current.trans made.symm)
  have copies : run.active.plan.mode = .copy := by
    cases mode : run.active.plan.mode with
    | copy => rfl
    | remove => exact absurd mode accepted.2
  rw [course.files_of_writing stage, tree]
  exact .committed completions planned copies

/-- A document that is stored after a move was stored before, and the move has kept its recorded
files, or has replaced them in one of the two ways. -/
theorem OpenExecution.statusMove {backends : Backends} {registry : Registry} {key : QualifiedName}
    (sound : backends.documents.Sound)
    (execution : OpenExecution policy (idle backends registry []) history before)
    (move : Step policy before event after) (edits : event.Edits key)
    (stored : after.stored? key = some version') :
    ∃ version, before.stored? key = some version ∧
      StatusMove policy history before event version version'.files := by
  have coherent := coherent_of_openExecution execution
  have snapshots := snapshots_of_openExecution sound execution
  have kept : ∀ version, version'.status = version.status →
      StatusMove policy history before event version version'.files := by
    intro version same
    rw [Document.files, same]
    exact .kept
  have replaced : ∀ status, version'.status = some status → version'.files = status.files := by
    intro status same
    rw [Document.files, same]
    rfl
  have found : (before.documentsAfter event).get? key = some version' :=
    coherent.documents move ▸ stored
  cases move with
  | write write =>
    obtain ⟨version, present, same⟩ := edits.status found
    exact ⟨version, present, kept version same⟩
  | @call look document call next asking =>
    cases call with
    | object | resolve | clock => exact ⟨version', found, .kept⟩
    | document call =>
      obtain ⟨version, present, same | ⟨token, status, rfl, ok, current, same⟩⟩ :=
        DocumentStore.status_answer found
      · exact ⟨version, present, kept version same⟩
      · have answered : (before.backends.answer (.document (.patchStatus key token status))).1 =
            .ok () := ok
        rw [replaced status same]
        refine ⟨version, present, coherent.entered_of_call snapshots asking present current ?_⟩
        exact ⟨look, token, by rw [answered]⟩
  | @run number run active backends running move =>
    have called : before.documentCall? (.ran number) = run.active.documentCall? := by
      simp [documentCall?, running]
    simp only [documentsAfter, called] at found
    cases calls : run.active.documentCall? with
    | none =>
      rw [calls] at found
      exact ⟨version', found, .kept⟩
    | some call =>
      rw [calls] at found
      obtain ⟨version, present, same | ⟨token, status, rfl, -, current, same⟩⟩ :=
        DocumentStore.status_answer found
      · exact ⟨version, present, kept version same⟩
      · unfold ActiveRun.documentCall? at calls
        split at calls
        · rename_i made next stage
          cases calls
          rw [replaced status same]
          exact ⟨version, present, coherent.committed_of_call snapshots running
            (execution.followed (Nat.zero_le number) running) stage present current⟩
        · cases calls
  | _ => exact ⟨version', found, .kept⟩

end Engine

end DatasetSync
