import DatasetSync.Proofs.FileTree.Verdict
import DatasetSync.Proofs.Store.Statuses
import DatasetSync.Proofs.Sync.Course

/-!
# What a run writes

Of all turns of a run only two kinds can write a document, and each of them decides how the run
ends: an update that succeeds, and a patch that succeeds. So a run that ends in any other way has
left all stored documents as they were, and a run that has committed has written once, by its
patch, which touches nothing but the status and the token of its own document. A removal never
touches a status.

What others write between the turns of the run is not counted, and nothing is assumed of it.
-/

namespace DatasetSync

/-- A turn has left every stored document as it was. -/
def Turn.Spares (turn : Turn) : Prop :=
  ∀ key, turn.after.documents.get? key = turn.before.documents.get? key

/-- A turn has written a document. -/
def Turn.Writes (turn : Turn) : Prop := ∃ exchange, turn.exchange? = some exchange ∧ exchange.Writes

/-- A turn has replaced the status of a version: it has patched it under its token, and no other
document and nothing else about this one has changed, but for the token. -/
structure Turn.Patches (turn : Turn) (token : String) (status : Status) (former : Document)
    (key : QualifiedName) : Prop where
  asked : turn.exchange? = some ⟨.document (.patchStatus key token status), .ok ()⟩
  found : turn.before.documents.get? key = some former
  current : former.versionToken = some token
  versions : ∀ other, turn.after.documents.get? other =
    if key = other then
      some (DocumentStore.withToken { former with status := some status }
        turn.before.documents.nextToken)
    else turn.before.documents.get? other

/-- A turn that does not end as a write spares all documents: a write that was refused counts for
nothing. -/
theorem Turn.TakenBy.spares {run : ActiveRun} {turn : Turn} (taken : turn.TakenBy run)
    (silent : ¬ turn.Writes) : turn.Spares := by
  intro key
  cases taken with
  | worked stage move effect documents => exact congrArg (DocumentStore.get? · key) documents
  | asked before stage =>
    exact Backends.get?_of_not_writes (fun writes => silent ⟨_, rfl, writes⟩) key
  | cancelled before => rfl

/-- A patch that was answered well has replaced a status under its key, and has given the document a
new token. -/
theorem Turn.TakenBy.patches {run : ActiveRun} {turn : Turn} {key : QualifiedName} {token : String}
    {status : Status} (taken : turn.TakenBy run)
    (asked : turn.exchange? = some ⟨.document (.patchStatus key token status), .ok ()⟩) :
    ∃ former, turn.Patches token status former key := by
  have answered := taken.answered asked
  have result : (turn.before.documents.patchStatus key token status).1 = .ok () :=
    congrArg Prod.fst answered
  have after : (turn.before.documents.patchStatus key token status).2 = turn.after.documents :=
    congrArg (fun reply => reply.2.documents) answered
  rcases turn.before.documents.patchStatus_cases key token status with ⟨error, failed, -⟩ |
    ⟨former, found, current, -, -, versions⟩
  · cases failed.symm.trans result
  · exact ⟨former, asked, found, current, after ▸ versions⟩

namespace SyncPlan

open Pool

variable {plan : SyncPlan} {others : Backends → Backends → Prop} {history front back : List Turn}
  {turn : Turn} {run : ActiveRun} {first backends : Backends}
  {outcome : Except SyncError RunOutcome}

namespace Course

/-- A run of which no concluding call was a write has left all documents as they were. -/
theorem spares (course : plan.Course others first history run backends) (member : turn ∈ history)
    (silent : ¬ turn.Writes) : turn.Spares := by
  obtain ⟨front, former, -, taken⟩ := course.taken member
  exact taken.spares silent

/-- A run that has committed has written its status by one patch, and has written nothing
else. -/
theorem patches (course : plan.Course others first history run backends)
    {latest : Document} {now : Timestamp} {token : String} {status : Status}
    (trail : exchanges history =
      [plan.reading (some latest), timing now, plan.writing token status]) :
    ∃ front turn back former, history = front ++ turn :: back ∧
      exchanges front = [plan.reading (some latest), timing now] ∧
      turn.Patches token status former plan.document.key ∧
      ∀ other ∈ front ++ back, ¬ other.Writes ∧ other.Spares := by
  obtain ⟨front, turn, back, rfl, before, asked, after⟩ :=
    exists_turn (show exchanges history = [plan.reading (some latest), timing now] ++
      plan.writing token status :: [] from trail)
  obtain ⟨run', -, taken⟩ := course.around rfl
  obtain ⟨former, patches⟩ := taken.patches asked
  refine ⟨front, turn, back, former, rfl, before, patches, fun other member => ?_⟩
  have silent : ¬ other.Writes := by
    rintro ⟨exchange, asked', writes⟩
    have among : exchange ∈ exchanges (front ++ back) :=
      List.mem_filterMap.mpr ⟨other, member, asked'⟩
    rw [exchanges, List.filterMap_append] at among
    change exchange ∈ exchanges front ++ exchanges back at among
    rw [before, after] at among
    rcases (by simpa using among : exchange = _ ∨ exchange = _) with rfl | rfl <;> exact writes
  have listed : other ∈ front ++ turn :: back := by
    rcases List.mem_append.mp member with ahead | behind
    · exact List.mem_append_left _ ahead
    · exact List.mem_append_right _ (List.mem_cons_of_mem _ behind)
  exact ⟨silent, course.spares listed silent⟩

/-- No turn of a removal has touched a status: what is stored after it was stored before with
the same status. -/
theorem keeps_status (course : plan.Course others first history run backends)
    (removes : plan.mode = .remove) (member : turn ∈ history) {key : QualifiedName}
    {version : Document} (stored : turn.after.documents.get? key = some version) :
    ∃ former, turn.before.documents.get? key = some former ∧ version.status = former.status := by
  obtain ⟨front, run', earlier, taken⟩ := course.taken member
  cases taken with
  | worked stage move effect documents => exact ⟨version, documents ▸ stored, rfl⟩
  | cancelled before => exact ⟨version, stored, rfl⟩
  | asked before stage =>
    obtain ⟨produced, cancelled, leads, -⟩ := earlier.concluding stage
    generalize exchanges front = trail at leads
    generalize left : Program.ask _ _ = rest at leads
    cases concluding_of_leads leads with
    | atRead =>
      cases left
      exact ⟨version, stored, rfl⟩
    | atRelease deleting =>
      cases left
      exact DocumentStore.status_update stored
    | atClock accepts => exact absurd removes accepts.copies
    | atWrite accepts => exact absurd removes accepts.copies
    | committed | ended => cases left

end Course

/-- Only ends that mean a write go with one. A run that ends in an error, or as unchanged,
superseded, removed, gone or cancelled, has left every stored document as it was. A run that ends as
committed has made one patch that succeeded, which has replaced the status and the token of its own
document, and has changed no document in any other turn. A removal never changes the status of a
document. This is so in all surroundings, whatever the run is to do and whenever it is cancelled. -/
theorem only_writing_ends_write (course : plan.Course others first history run backends) :
    (∀ outcome, run.outcome? = some outcome → outcome ≠ .ok .finalized →
      (∀ ready, outcome ≠ .ok (.committed ready)) → ∀ turn ∈ history, turn.Spares) ∧
    (∀ ready, run.outcome? = some (.ok (.committed ready)) →
      ∃ front turn back token status former, history = front ++ turn :: back ∧
        turn.Patches token status former plan.document.key ∧
        ∀ other ∈ front ++ back, ¬ other.Writes ∧ other.Spares) ∧
    (plan.mode = .remove → ∀ turn ∈ history, ∀ key version,
      turn.after.documents.get? key = some version → ∃ former,
        turn.before.documents.get? key = some former ∧ version.status = former.status) := by
  refine ⟨?silent, ?committed, fun removes turn member key version stored =>
    course.keeps_status removes member stored⟩
  case silent =>
    intro outcome ended unreleased uncommitted turn member
    refine course.spares member ?_
    rintro ⟨exchange, asked, writes⟩
    have among : exchange ∈ exchanges history := List.mem_filterMap.mpr ⟨turn, member, asked⟩
    rcases course.ending ended with ⟨none, -⟩ | ⟨ending, -⟩
    · rw [none] at among
      cases among
    · exact ending.silent unreleased uncommitted exchange among writes
  case committed =>
    intro ready ended
    obtain ⟨ending, -⟩ := course.ending_of_finished ended (.inr ⟨ready, rfl⟩)
    obtain ⟨latest, token, now, -, ⟨impossible, -⟩ | ⟨-, trail⟩⟩ :=
      ending.finished (.inr ⟨ready, rfl⟩)
    · cases impossible
    · obtain ⟨front, turn, back, former, cut, -, patches, others⟩ := course.patches trail
      exact ⟨front, turn, back, _, _, former, cut, patches, others⟩

/-- The copy of the one file has made one patch, and has changed nothing else. -/
theorem heldDocument_patched : ∃ history run backends front turn back token status former,
    (copying heldDocument .standard).Course (· = ·) heldBackends history run backends ∧
      run.outcome? = some (.ok (.committed true)) ∧ history = front ++ turn :: back ∧
      turn.Patches token status former heldDocument.key ∧
      ∀ other ∈ front ++ back, ¬ other.Writes ∧ other.Spares := by
  obtain ⟨history, run, backends, course, ended⟩ := heldDocument_committed
  obtain ⟨-, committed, -⟩ := only_writing_ends_write course
  obtain ⟨front, turn, back, token, status, former, cut, patches, others⟩ := committed true ended
  exact ⟨history, run, backends, front, turn, back, token, status, former, course, ended, cut,
    patches, others⟩

end SyncPlan

end DatasetSync
