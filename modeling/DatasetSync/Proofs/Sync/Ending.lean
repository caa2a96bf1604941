import DatasetSync.Proofs.Store.Versions
import DatasetSync.Proofs.Sync.Conclusion

/-!
# How a run ends

What a run asked while it was being concluded, and how it was answered, goes with how it ends.
A run that was stopped, or whose jobs could not all be made, asks nothing any more. Otherwise
the end tells what was written: a patch that succeeded means that the run has committed, an
update that succeeded means that it has cleared finalizers, and every other end goes with no
write at all. That a run has found nothing to change means that it has read the status that it
would have written.
-/

namespace DatasetSync

/-- The exchange has written a document. -/
def Exchange.Writes : Exchange Calls → Prop
  | ⟨.document (.update _), .ok _⟩ => True
  | ⟨.document (.patchStatus _ _ _), .ok _⟩ => True
  | _ => False

/-- A call that does not end as a write leaves every stored version as it was, also if it is a
write that was refused. -/
theorem Backends.get?_of_not_writes {call : Call} {backends : Backends}
    (idle : ¬ Exchange.Writes ⟨call, (backends.answer call).1⟩) (key : QualifiedName) :
    (backends.answer call).2.documents.get? key = backends.documents.get? key := by
  cases call with
  | object made => rfl
  | resolve source fallback => rfl
  | clock => rfl
  | document made =>
    cases made with
    | get read => rfl
    | update document =>
      rcases backends.documents.update_cases document with ⟨error, -, same⟩ |
        ⟨stored, -, -, -, answered, -⟩
      · have kept : (backends.documents.update document).2.get? key =
            backends.documents.get? key := by
          rcases same with same | same <;> rw [same]
          rfl
        exact kept
      · have writes : Exchange.Writes ⟨.document (.update document),
            (backends.documents.update document).1⟩ := by
          rw [answered]
          trivial
        exact absurd writes idle
    | patchStatus own token status =>
      rcases backends.documents.patchStatus_cases own token status with ⟨error, -, same⟩ |
        ⟨stored, -, -, answered, -⟩
      · have kept : (backends.documents.patchStatus own token status).2.get? key =
            backends.documents.get? key := by
          rw [same]
          rfl
        exact kept
      · have writes : Exchange.Writes ⟨.document (.patchStatus own token status),
            (backends.documents.patchStatus own token status).1⟩ := by
          rw [answered]
          trivial
        exact absurd writes idle

namespace SyncPlan

variable {plan : SyncPlan} {tree : FileTree} {latest : Document} {token : String}
  {trail : List (Exchange Calls)} {outcome : Except SyncError RunOutcome}

/-- How a run ends that was not stopped and has made all its jobs: the exchanges that it has
made to conclude, and the outcome. -/
inductive Ending (plan : SyncPlan) (tree : FileTree) :
    List (Exchange Calls) → Except SyncError RunOutcome → Prop
  /-- It has written nothing, and it was not the status that kept it from writing. -/
  | idle {trail : List (Exchange Calls)} {outcome : Except SyncError RunOutcome}
      (silent : ∀ exchange ∈ trail, ¬ exchange.Writes) (changed : outcome ≠ .ok .unchanged)
      (uncommitted : ∀ ready, outcome ≠ .ok (.committed ready)) :
      Ending plan tree trail outcome
  /-- It has cleared finalizers, or has found the document gone as it was about to. -/
  | finalized {latest : Document} {answer : Except StoreError Document}
      (deleting : latest.isDeleting = true) :
      Ending plan tree
        [plan.reading (some latest), ⟨.document (.update latest.unguarded), answer⟩]
        (.ok .finalized)
  /-- It has read the status that it would write. -/
  | unchanged {latest : Document} {token : String} {now : Timestamp}
      (accepts : plan.Accepts latest token)
      (same : latest.status = some (commitStatus latest.status tree now)) :
      Ending plan tree [plan.reading (some latest), timing now] (.ok .unchanged)
  /-- It has written its status. -/
  | committed {latest : Document} {token : String} {now : Timestamp}
      (accepts : plan.Accepts latest token) :
      Ending plan tree
        [plan.reading (some latest), timing now,
          plan.writing token (commitStatus latest.status tree now)]
        (.ok (.committed ((commitStatus latest.status tree now).ready?.any Condition.holds)))

/-- A run that has neither committed nor cleared finalizers has written nothing: what it has asked
for was read, or was refused. -/
theorem Ending.silent (ending : plan.Ending tree trail outcome)
    (unreleased : outcome ≠ .ok .finalized)
    (uncommitted : ∀ ready, outcome ≠ .ok (.committed ready)) :
    ∀ exchange ∈ trail, ¬ exchange.Writes := by
  cases ending with
  | idle silent => exact silent
  | finalized => exact absurd rfl unreleased
  | unchanged => simp [reading, timing, Exchange.Writes]
  | committed => exact absurd rfl (uncommitted _)

/-- A run that has committed, or has found nothing to commit, has read a version that accepts its
token. Either the status of that version was the one to be written, or the run has written it. -/
theorem Ending.finished {result : RunOutcome} (ending : plan.Ending tree trail (.ok result))
    (finished : result = .unchanged ∨ ∃ ready, result = .committed ready) :
    ∃ latest token now, plan.Accepts latest token ∧
      ((result = .unchanged ∧ trail = [plan.reading (some latest), timing now] ∧
          latest.status = some (commitStatus latest.status tree now)) ∨
        (result = .committed
            ((commitStatus latest.status tree now).ready?.any Condition.holds) ∧
          trail = [plan.reading (some latest), timing now,
            plan.writing token (commitStatus latest.status tree now)])) := by
  cases ending with
  | idle silent changed uncommitted =>
    rcases finished with rfl | ⟨ready, rfl⟩
    · exact absurd rfl changed
    · exact absurd rfl (uncommitted ready)
  | finalized => simp at finished
  | @unchanged latest token now accepts same =>
    exact ⟨latest, token, now, accepts, .inl ⟨rfl, rfl, same⟩⟩
  | @committed latest token now accepts =>
    exact ⟨latest, token, now, accepts, .inr ⟨rfl, rfl⟩⟩

/-- Once a deleted document was read, the run clears its finalizers or fails. A document that is
gone by then counts as released. -/
theorem ending_release (deleting : latest.isDeleting = true)
    (leads : (release latest).Leads trail (.done outcome)) :
    plan.Ending tree (plan.reading (some latest) :: trail) outcome := by
  obtain ⟨answer, later, rfl, after⟩ := Program.ask_ended leads
  cases answer with
  | ok stored =>
    obtain ⟨rfl, ended⟩ := Program.done_leads_iff.mp after
    cases ended
    exact .finalized deleting
  | error error =>
    cases error with
    | notFound key =>
      obtain ⟨rfl, ended⟩ := Program.done_leads_iff.mp after
      cases ended
      exact .finalized deleting
    | conflict | missingMetadata | service =>
      obtain ⟨rfl, ended⟩ := Program.done_leads_iff.mp after
      cases ended
      exact .idle (by simp [reading, Exchange.Writes]) (by simp) (by simp)

/-- Once a version was read that the run may write to, the run writes its status, unless it is
there already or the store refuses it. -/
theorem ending_writeStatus (accepts : plan.Accepts latest token)
    (leads : (writeStatus plan.document.key token latest.status tree).Leads trail
      (.done outcome)) :
    plan.Ending tree (plan.reading (some latest) :: trail) outcome := by
  obtain ⟨now, later, rfl, after⟩ := Program.ask_ended leads
  simp only [Program.done_bind] at after
  split at after
  case isTrue same =>
    obtain ⟨rfl, ended⟩ := Program.done_leads_iff.mp after
    cases ended
    exact .unchanged accepts same
  case isFalse =>
    obtain ⟨answer, later, rfl, final⟩ := Program.ask_ended after
    rcases answer with error | ⟨⟩
    · cases error <;> obtain ⟨rfl, ended⟩ := Program.done_leads_iff.mp final <;> cases ended <;>
        exact .idle (by simp [reading, Exchange.Writes]) (by simp) (by simp)
    · obtain ⟨rfl, ended⟩ := Program.done_leads_iff.mp final
      cases ended
      exact .committed accepts

/-- A run whose commit has come to its end has one of the listed endings. The proof follows the text
of the commit; the answers on the way decide which ending it is. -/
theorem ending_commit (leads : (plan.commit tree).Leads trail (.done outcome)) :
    plan.Ending tree trail outcome := by
  obtain ⟨answer, later, rfl, after⟩ := Program.ask_ended leads
  have silent : ∀ exchange ∈ [(⟨.document (.get plan.document.key), answer⟩ : Exchange Calls)],
      ¬ exchange.Writes := by
    simp [Exchange.Writes]
  simp only [Program.done_bind] at after
  split at after
  · obtain ⟨rfl, ended⟩ := Program.done_leads_iff.mp after
    cases ended
    exact .idle silent (by simp) (by simp)
  · obtain ⟨rfl, ended⟩ := Program.done_leads_iff.mp after
    cases ended
    exact .idle silent (by simp) (by simp)
  · rename_i latest
    by_cases deleting : latest.isDeleting = true
    · rw [if_pos deleting] at after
      exact ending_release deleting after
    rw [if_neg deleting] at after
    by_cases removes : plan.mode = .remove
    · rw [if_pos removes] at after
      obtain ⟨rfl, ended⟩ := Program.done_leads_iff.mp after
      cases ended
      exact .idle silent (by simp) (by simp)
    rw [if_neg removes] at after
    split at after
    · obtain ⟨rfl, ended⟩ := Program.done_leads_iff.mp after
      cases ended
      exact .idle silent (by simp) (by simp)
    · rename_i token snapshot
      by_cases current : latest.versionToken = some token
      · rw [if_neg (not_not_intro current)] at after
        exact ending_writeStatus ⟨by simpa using deleting, removes, snapshot, current⟩ after
      · rw [if_pos current] at after
        obtain ⟨rfl, ended⟩ := Program.done_leads_iff.mp after
        cases ended
        exact .idle silent (by simp) (by simp)

/-- A run that has come to its end was cancelled or could not make all its jobs, and has asked
nothing, or it has one of the listed endings. -/
theorem ending_of_leads {produced : Except SyncError Unit} {cancelled : Bool}
    (leads : (plan.conclude tree produced cancelled).Leads trail (.done outcome)) :
    (trail = [] ∧
        ((cancelled = true ∧ outcome = .ok .cancelled) ∨ ∃ error, outcome = .error error)) ∨
      (produced = .ok () ∧ cancelled = false ∧ plan.Ending tree trail outcome) := by
  unfold conclude at leads
  split at leads
  · obtain ⟨rfl, ended⟩ := Program.done_leads_iff.mp leads
    cases ended
    exact .inl ⟨rfl, .inr ⟨_, rfl⟩⟩
  split at leads
  · rename_i stopped
    obtain ⟨rfl, ended⟩ := Program.done_leads_iff.mp leads
    cases ended
    exact .inl ⟨rfl, .inl ⟨stopped, rfl⟩⟩
  · rename_i uncancelled
    exact .inr ⟨rfl, by simpa using uncancelled, ending_commit leads⟩

end SyncPlan

end DatasetSync
