import DatasetSync.Proofs.Controller.Look
import DatasetSync.Proofs.Sync.Ending

/-!
# How a look fails

A look that ends in an error, or asks to be made again after a while, has written nothing. Its
last question was refused, and before that question it has asked for nothing but the calls of a
purge or of a listing, which spare the documents. The only write of a look that may come after a
run, that of its target, is the last thing that it does, and a look that has come so far does not
fail any more: a write that is refused because it comes too late counts as made.

That a document store refuses a status for no other reason, and that the version which the look
was given has a token, is assumed here. Both hold of versions that were read from the store in
memory.
-/

namespace DatasetSync

/-- The exchange has brought nothing about that outlasts the look: no document was written, no run
was brought to a good end, and no run was launched. -/
def Exchange.IsFruitless : Exchange Controls → Prop
  | ⟨.call call, answer⟩ => ¬ Exchange.Writes ⟨call, answer⟩
  | ⟨.sync _, outcome⟩ => ∃ error, outcome = .error error
  | ⟨.launch _ _, _⟩ => False
  | ⟨.stop _, _⟩ => True
  | ⟨.await _, _⟩ => True

/-- A call that spares the documents writes none, whatever it is answered. -/
theorem Call.SparesDocuments.isFruitless {exchange : Exchange Calls}
    (spares : exchange.request.SparesDocuments) :
    (Controlling.exchanged exchange).IsFruitless := by
  obtain ⟨call, answer⟩ := exchange
  cases call with
  | document made => exact absurd rfl (spares made)
  | object | resolve | clock => exact id

/-- Calls that spare the documents write none, how far their program may have come. -/
theorem Program.AsksOnly.isFruitless {α : Type} {program rest : Calling α}
    {calls : List (Exchange Calls)} (spares : program.AsksOnly Call.SparesDocuments)
    (leads : program.Leads calls rest) :
    ∀ exchange ∈ calls.map Controlling.exchanged, exchange.IsFruitless := by
  intro exchange member
  obtain ⟨call, made, rfl⟩ := List.mem_map.mp member
  exact (spares.asked leads call made).isFruitless

namespace Policy

/-- The look has not come to what it was made for: it has failed, or asks to be made again after
some time. -/
def HasFailed : Except ReconcileError Next → Prop
  | .error _ => True
  | .ok (.requeue _) => True
  | .ok .awaitChange => False

/-- A status that is refused comes too late: the document has changed, or is gone. -/
def RefusesLate (trail : List (Exchange Controls)) : Prop :=
  ∀ key token status error,
    (⟨.call (.document (.patchStatus key token status)), .error error⟩ : Exchange Controls) ∈ trail →
      (∃ named, error = .conflict named) ∨ ∃ named, error = .notFound named

/-- What holds of all refusals of a trail holds of those of a part. -/
theorem RefusesLate.mono {trail part : List (Exchange Controls)} (late : RefusesLate trail)
    (within : part ⊆ trail) : RefusesLate part :=
  fun key token status error member => late key token status error (within member)

variable {policy : Policy} {document : Document} {key : String}
  {trail : List (Exchange Controls)} {result : Except ReconcileError Next}

/-- A cleanup fails when an object of the purge is kept, or with its removal run. In both cases it
has written nothing itself. -/
theorem isFruitless_cleanup (failed : HasFailed result)
    (leads : (policy.cleanup document).Leads trail (.done result)) :
    ∀ exchange ∈ trail, exchange.IsFruitless := by
  obtain ⟨purging, later, purged, rfl, within, after⟩ := Program.bind_ended leads
  obtain ⟨calls, rfl, reached⟩ := Controlling.calling_ends within
  have quiet := (purgeUntracked_spares document _).isFruitless reached
  cases purged with
  | error error =>
    obtain ⟨rfl, -⟩ := Program.done_ended after
    simpa using quiet
  | ok =>
    obtain ⟨outcome, last, rfl, final⟩ := Program.ask_ended after
    cases outcome with
    | error error =>
      obtain ⟨rfl, -⟩ := Program.done_ended final
      refine List.forall_mem_append.mpr ⟨quiet, ?_⟩
      simp [Exchange.IsFruitless]
    | ok outcome =>
      obtain ⟨-, rfl⟩ := Program.done_ended final
      exact failed.elim

/-- A look at a deleted document fails in its cleanup; before that it only stops a run and waits for
it. -/
theorem isFruitless_finalize (failed : HasFailed result)
    (leads : (policy.finalize key document).Leads trail (.done result)) :
    ∀ exchange ∈ trail, exchange.IsFruitless := by
  rw [finalize_eq] at leads
  split at leads
  · obtain ⟨stopped, later, rfl, after⟩ := Program.ask_ended leads
    cases stopped with
    | none => exact List.forall_mem_cons.mpr ⟨trivial, isFruitless_cleanup failed after⟩
    | some run =>
      obtain ⟨waited, last, rfl, final⟩ := Program.ask_ended after
      exact List.forall_mem_cons.mpr ⟨trivial,
        List.forall_mem_cons.mpr ⟨trivial, isFruitless_cleanup failed final⟩⟩
  · obtain ⟨-, rfl⟩ := Program.done_ended leads
    exact failed.elim

/-- A look that marks a document fails when its one write is refused, and a refused write has no
fruit. -/
theorem isFruitless_mark {marked : Document} (failed : HasFailed result)
    (leads : (Controlling.calling (mark marked)).Leads trail (.done result)) :
    ∀ exchange ∈ trail, exchange.IsFruitless := by
  obtain ⟨calls, rfl, within⟩ := Controlling.calling_ends leads
  obtain ⟨answer, later, rfl, after⟩ := Program.ask_ended within
  cases answer with
  | ok stored =>
    obtain ⟨-, rfl⟩ := Program.done_ended after
    exact failed.elim
  | error error =>
    have alone : later = [] := by
      cases error <;> exact (Program.done_ended after).1
    subst alone
    simp [Controlling.exchanged, Exchange.IsFruitless, Exchange.Writes]

/-- A look that has come to its target does not fail any more: its write succeeds, or it comes too
late, which counts as well. -/
theorem not_hasFailed_of_writeTarget {target : Status} (numbered : document.versionToken ≠ none)
    (late : RefusesLate trail)
    (leads : (Controlling.calling (writeTarget document target)).Leads trail (.done result)) :
    ¬ HasFailed result := by
  obtain ⟨calls, rfl, within⟩ := Controlling.calling_ends leads
  unfold writeTarget at within
  split at within
  · rename_i absent
    exact absurd absent numbered
  · obtain ⟨answer, later, rfl, after⟩ := Program.ask_ended within
    cases answer with
    | ok =>
      obtain ⟨-, rfl⟩ := Program.done_ended after
      exact id
    | error error =>
      rcases late _ _ _ error List.mem_cons_self with ⟨named, rfl⟩ | ⟨named, rfl⟩ <;>
        obtain ⟨-, rfl⟩ := Program.done_ended after <;> exact id

/-- A look that follows a comparison fails when its removal run does, before it comes to its
target. -/
theorem isFruitless_applyOutcome {outcome : Outcome} (failed : HasFailed result)
    (numbered : document.versionToken ≠ none) (late : RefusesLate trail)
    (leads : (policy.applyOutcome document outcome).Leads trail (.done result)) :
    ∀ exchange ∈ trail, exchange.IsFruitless := by
  unfold applyOutcome at leads
  split at leads
  · exact absurd failed (not_hasFailed_of_writeTarget numbered late leads)
  · obtain ⟨answer, later, rfl, after⟩ := Program.ask_ended leads
    cases answer with
    | error error =>
      obtain ⟨rfl, -⟩ := Program.done_ended after
      simp [Exchange.IsFruitless]
    | ok =>
      have later' : RefusesLate later := late.mono (List.subset_cons_self _ _)
      exact absurd failed (not_hasFailed_of_writeTarget numbered later' after)

/-- A look at a living document that is marked fails when its parent version cannot be listed, or
with its removal run. -/
theorem isFruitless_advance (failed : HasFailed result) (numbered : document.versionToken ≠ none)
    (late : RefusesLate trail)
    (leads : (policy.advance key document).Leads trail (.done result)) :
    ∀ exchange ∈ trail, exchange.IsFruitless := by
  obtain ⟨listing, later, listed, rfl, within, after⟩ := Program.bind_ended leads
  obtain ⟨calls, rfl, reached⟩ := Controlling.calling_ends within
  have spares : document.listLineage.AsksOnly Call.SparesDocuments :=
    (listLineage_quiet document).imp fun _ quiet => quiet.1
  refine List.forall_mem_append.mpr ⟨spares.isFruitless reached, ?_⟩
  cases listed with
  | error error =>
    obtain ⟨rfl, -⟩ := Program.done_ended after
    simp
  | ok lineage =>
    obtain ⟨now, last, rfl, final⟩ := Program.ask_ended after
    simp only [Program.run, Program.pure_eq_done, Program.done_bind] at final
    refine List.forall_mem_cons.mpr ⟨by simp [Exchange.IsFruitless, Exchange.Writes], ?_⟩
    split at final
    · refine isFruitless_applyOutcome failed numbered (late.mono ?_) final
      exact List.subset_append_of_subset_right _ (List.subset_cons_self _ _)
    · obtain ⟨id, rest, rfl, ended⟩ := Program.ask_ended final
      obtain ⟨-, rfl⟩ := Program.done_ended ended
      exact failed.elim

/-- A look that has failed has brought nothing about. The proof goes through the text of the look:
it fails before its only write, or by it. -/
theorem isFruitless_of_hasFailed (failed : HasFailed result)
    (numbered : document.versionToken ≠ none) (late : RefusesLate trail)
    (leads : (policy.reconcile document).Leads trail (.done result)) :
    ∀ exchange ∈ trail, exchange.IsFruitless := by
  unfold reconcile at leads
  split at leads
  · obtain ⟨rfl, -⟩ := Program.done_ended leads
    simp
  dsimp only at leads
  split at leads
  · exact isFruitless_finalize failed leads
  split at leads
  · exact isFruitless_mark failed leads
  · exact isFruitless_advance failed numbered late leads

end Policy

end DatasetSync
