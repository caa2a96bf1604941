import DatasetSync.Proofs.Program.Trail

/-!
# How a run concludes

A run whose pool has come to its end reads its document and acts by what it reads. The few
positions that it can reach are listed in `Concluding`, each with the exchanges that lead to
it. All later statements about the writes of a run are read off this list; none of them
opens the program again.
-/

namespace DatasetSync

/-- A document without any finalizers. -/
def Document.unguarded (document : Document) : Document :=
  { document with metadata := { document.metadata with finalizers := none } }

/-- Without its finalizers a document has the same key. -/
@[simp] theorem Document.key_unguarded (document : Document) :
    document.unguarded.key = document.key := rfl

/-- Without its finalizers a document has the same token. -/
@[simp] theorem Document.versionToken_unguarded (document : Document) :
    document.unguarded.versionToken = document.versionToken := rfl

/-- A document is being deleted without its finalizers as with them. -/
@[simp] theorem Document.isDeleting_unguarded (document : Document) :
    document.unguarded.isDeleting = document.isDeleting := rfl

/-- A document whose finalizers were taken away has none, whoever has put them on. -/
@[simp] theorem Document.finalizers_unguarded (document : Document) :
    document.unguarded.finalizers = [] := rfl

namespace SyncPlan

/-- The run has read its document. -/
def reading (plan : SyncPlan) (found : Option Document) : Exchange Calls :=
  ⟨.document (.get plan.document.key), .ok found⟩

/-- The run has looked at the clock. -/
def timing (now : Timestamp) : Exchange Calls := ⟨.clock, now⟩

/-- The run has written a status under a token. -/
def writing (plan : SyncPlan) (token : String) (status : Status) : Exchange Calls :=
  ⟨.document (.patchStatus plan.document.key token status), .ok ()⟩

/-- A version to which a run may write its status: it is alive, the run copies, and the
version bears the token of the version that the run was made for. -/
structure Accepts (plan : SyncPlan) (latest : Document) (token : String) : Prop where
  living : latest.isDeleting = false
  copies : plan.mode ≠ .remove
  snapshot : plan.document.versionToken = some token
  current : latest.versionToken = some token

/-- Where a run stands that is being concluded: the exchanges it has made, and what is left
of it. -/
inductive Concluding (plan : SyncPlan) (tree : FileTree) :
    List (Exchange Calls) → Calling (Except SyncError RunOutcome) → Prop
  /-- It is about to read its document. -/
  | atRead {next : Except StoreError (Option Document) → Calling (Except SyncError RunOutcome)} :
      Concluding plan tree [] (.ask (.document (.get plan.document.key)) next)
  /-- It is about to clear the finalizers of a document that it has read as deleted. -/
  | atRelease {latest : Document}
      {next : Except StoreError Document → Calling (Except SyncError RunOutcome)}
      (deleting : latest.isDeleting = true) :
      Concluding plan tree [plan.reading (some latest)]
        (.ask (.document (.update latest.unguarded)) next)
  /-- It is about to make the status it will write. -/
  | atClock {latest : Document} {token : String}
      {next : Timestamp → Calling (Except SyncError RunOutcome)}
      (accepts : plan.Accepts latest token) :
      Concluding plan tree [plan.reading (some latest)] (.ask .clock next)
  /-- It is about to write its status. -/
  | atWrite {latest : Document} {token : String} {now : Timestamp}
      {next : Except StoreError Unit → Calling (Except SyncError RunOutcome)}
      (accepts : plan.Accepts latest token) :
      Concluding plan tree [plan.reading (some latest), timing now]
        (.ask (.document
          (.patchStatus plan.document.key token (commitStatus latest.status tree now))) next)
  /-- It has written its status. -/
  | committed {latest : Document} {token : String} {now : Timestamp} {ready : Bool}
      (accepts : plan.Accepts latest token) :
      Concluding plan tree
        [plan.reading (some latest), timing now,
          plan.writing token (commitStatus latest.status tree now)]
        (.done (.ok (.committed ready)))
  /-- It has come to an end and written no status. -/
  | ended {trail : List (Exchange Calls)} {outcome : Except SyncError RunOutcome}
      (uncommitted : ∀ ready, outcome ≠ .ok (.committed ready)) :
      Concluding plan tree trail (.done outcome)

/-- Once a deleted document was read, the run clears its finalizers and ends. It makes one more
call, an update of the version that it has read. -/
theorem concluding_release {plan : SyncPlan} {tree : FileTree} {latest : Document}
    {trail : List (Exchange Calls)} {rest : Calling (Except SyncError RunOutcome)}
    (deleting : latest.isDeleting = true) (leads : (release latest).Leads trail rest) :
    Concluding plan tree (plan.reading (some latest) :: trail) rest := by
  rcases Program.ask_leads_iff.mp leads with ⟨rfl, rfl⟩ | ⟨answer, later, rfl, after⟩
  · exact .atRelease deleting
  · have ends : ∃ outcome, rest = .done outcome ∧
        ∀ ready, outcome ≠ .ok (RunOutcome.committed ready) := by
      rcases answer with (_ | _ | _ | _) | _ <;>
        obtain ⟨-, rfl⟩ := Program.done_leads_iff.mp after <;>
        exact ⟨_, rfl, by simp⟩
    obtain ⟨outcome, rfl, uncommitted⟩ := ends
    exact .ended uncommitted

/-- Once a version was read that the run may write to, the run makes its status and writes
it, unless it is there already. -/
theorem concluding_writeStatus {plan : SyncPlan} {tree : FileTree} {latest : Document}
    {token : String} {trail : List (Exchange Calls)}
    {rest : Calling (Except SyncError RunOutcome)} (accepts : plan.Accepts latest token)
    (leads : (writeStatus plan.document.key token latest.status tree).Leads trail rest) :
    Concluding plan tree (plan.reading (some latest) :: trail) rest := by
  rcases Program.ask_leads_iff.mp leads with ⟨rfl, rfl⟩ | ⟨now, later, rfl, after⟩
  · exact .atClock accepts
  · simp only [Program.done_bind] at after
    split at after
    · obtain ⟨-, rfl⟩ := Program.done_leads_iff.mp after
      exact .ended (by simp)
    · rcases Program.ask_leads_iff.mp after with ⟨rfl, rfl⟩ | ⟨answer, later, rfl, final⟩
      · exact .atWrite accepts
      · cases answer with
        | ok =>
          obtain ⟨rfl, rfl⟩ := Program.done_leads_iff.mp final
          exact .committed accepts
        | error error =>
          cases error <;> obtain ⟨-, rfl⟩ := Program.done_leads_iff.mp final <;>
            exact .ended (by simp)

/-- Every position that a run can reach while it is being concluded is listed. The proof follows the
text of the conclusion: a failed producer or a cancelled run ends at once, and otherwise the
document is read. -/
theorem concluding_of_leads {plan : SyncPlan} {tree : FileTree} {produced : Except SyncError Unit}
    {cancelled : Bool} {trail : List (Exchange Calls)}
    {rest : Calling (Except SyncError RunOutcome)}
    (leads : (plan.conclude tree produced cancelled).Leads trail rest) :
    Concluding plan tree trail rest := by
  unfold conclude at leads
  split at leads
  · obtain ⟨-, rfl⟩ := Program.done_leads_iff.mp leads
    exact .ended (by simp)
  split at leads
  · obtain ⟨-, rfl⟩ := Program.done_leads_iff.mp leads
    exact .ended (by simp)
  rcases Program.ask_leads_iff.mp leads with ⟨rfl, rfl⟩ | ⟨answer, later, rfl, after⟩
  · exact .atRead
  simp only [Program.done_bind] at after
  split at after
  · obtain ⟨-, rfl⟩ := Program.done_leads_iff.mp after
    exact .ended (by simp)
  · obtain ⟨-, rfl⟩ := Program.done_leads_iff.mp after
    exact .ended (by simp)
  · rename_i latest
    by_cases deleting : latest.isDeleting = true
    · rw [if_pos deleting] at after
      exact concluding_release deleting after
    rw [if_neg deleting] at after
    by_cases removes : plan.mode = .remove
    · rw [if_pos removes] at after
      obtain ⟨-, rfl⟩ := Program.done_leads_iff.mp after
      exact .ended (by simp)
    rw [if_neg removes] at after
    split at after
    · obtain ⟨-, rfl⟩ := Program.done_leads_iff.mp after
      exact .ended (by simp)
    · rename_i token snapshot
      by_cases current : latest.versionToken = some token
      · rw [if_neg (not_not_intro current)] at after
        exact concluding_writeStatus ⟨by simpa using deleting, removes, snapshot, current⟩ after
      · rw [if_pos current] at after
        obtain ⟨-, rfl⟩ := Program.done_leads_iff.mp after
        exact .ended (by simp)

end SyncPlan

end DatasetSync
