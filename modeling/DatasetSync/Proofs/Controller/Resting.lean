import DatasetSync.Proofs.Controller.Copying
import DatasetSync.Proofs.Controller.Turn

/-!
# Rounds that leave a document alone

A round that leaves the stored version of a document as it was has not necessarily found it
synced: what it asked for may have been refused. If nothing fails, though, there is only one way
for it to change nothing. It has nothing to put on, to remove or to enter, and launches a copy,
which finds the status that it would write. A document that is ready then has no file left that is
not settled.

That rests on tokens: whatever is written under a fresh one is another version. Rounds keep the
tokens of a store in order, as all operations of the store do.
-/

namespace DatasetSync

section Soundness

variable {α : Type} {before after : Backends}

/-- Calls keep the versions of a store sound. Only calls on documents reach it, and the store keeps
its tokens in order with each of them, refused or not. -/
theorem Backends.sound_answer (sound : before.documents.Sound) (call : Call) :
    (before.answer call).2.documents.Sound := by
  cases call with
  | document call => exact sound.succession (DocumentStore.succession_answer sound.keyed call)
  | object | resolve | clock => exact sound

/-- Runs keep the versions of a store sound: by its end a run has written once at most, by an update
or by a patch, and either leads to a sound store. -/
theorem SyncPlan.Runs.sound {plan : SyncPlan} {outcome : Except SyncError RunOutcome}
    (sound : before.documents.Sound) (runs : plan.Runs before outcome after) :
    after.documents.Sound := by
  obtain ⟨⟨completions, concludes⟩, -⟩ := runs.effect
  cases concludes with
  | kept same => exact same ▸ sound
  | released _ _ cleared => exact cleared ▸ sound.succession (DocumentStore.succession_update _ _)
  | written _ _ _ patched =>
    exact patched ▸ sound.succession (DocumentStore.succession_patchStatus sound.keyed _ _ _)

/-- Programs of the controller keep the versions of a store sound, through their own calls and
through the runs that they wait for. -/
theorem Carries.sound {program : Controlling α} {value : α} {launched : List SyncPlan}
    (sound : before.documents.Sound) (carries : Carries program before value launched after) :
    after.documents.Sound := by
  induction carries with
  | done => exact sound
  | call now later ih => exact ih (@Backends.sound_answer (Backends.atTime _ now) sound _)
  | sync runs later ih => exact ih (runs.sound sound)
  | launch id later ih => exact ih sound
  | stop later ih => exact ih sound
  | await later ih => exact ih sound

/-- Runs that are carried out one after the other keep the versions of a store sound, by induction
on the plans. -/
theorem RunAll.sound {plans : List SyncPlan} (sound : before.documents.Sound)
    (runs : RunAll plans before after) : after.documents.Sound := by
  induction runs with
  | nil => exact sound
  | cons runs later ih => exact ih (runs.sound sound)

/-- Rounds keep the versions of a store sound: first the look does, and then the runs that it has
launched. -/
theorem Round.sound {policy : Policy} {key : QualifiedName} (sound : before.documents.Sound)
    (round : Round policy key before after) : after.documents.Sound := by
  cases round with
  | gone absent same => exact same ▸ sound
  | looked found carried finished => exact finished.sound (carried.sound sound)

end Soundness

/-- Plans are carried out one after the other, and none of them fails. -/
inductive SucceedAll : List SyncPlan → Backends → Backends → Prop
  | nil (backends : Backends) : SucceedAll [] backends backends
  | cons {plan : SyncPlan} {plans : List SyncPlan} {outcome : RunOutcome}
      {before middle after : Backends} (runs : plan.Runs before (.ok outcome) middle)
      (later : SucceedAll plans middle after) : SucceedAll (plan :: plans) before after

/-- Plans that succeed one after the other are carried out one after the other. What is forgotten is
how they have ended. -/
theorem SucceedAll.runAll {plans : List SyncPlan} {before after : Backends}
    (succeed : SucceedAll plans before after) : RunAll plans before after := by
  induction succeed with
  | nil backends => exact .nil backends
  | cons runs later ih => exact .cons runs ih

/-- A round in which nothing fails: the look ends well and is not to be tried again, and so do the
runs that it has launched. -/
inductive SmoothRound (policy : Policy) (key : QualifiedName) (before after : Backends) : Prop
  | looked {document : Document} {launched : List SyncPlan} {middle : Backends}
      (found : before.documents.get? key = some document)
      (carried : Carries (policy.reconcile document) before (.ok .awaitChange) launched middle)
      (finished : SucceedAll launched middle after)

/-- A round in which nothing fails is a round, so that all that is known of rounds holds of it. -/
theorem SmoothRound.round {policy : Policy} {key : QualifiedName} {before after : Backends}
    (smooth : SmoothRound policy key before after) : Round policy key before after := by
  obtain ⟨found, carried, finished⟩ := smooth
  exact .looked found carried finished.runAll

section Resting

open Document SyncPlan

variable {policy : Policy} {document : Document} {before middle after : Backends}
  {launched : List SyncPlan}

/-- A version that bears the next token is not the stored one, whatever else they have in common:
stored versions bear tokens that were issued before. -/
theorem DocumentStore.Sound.ne_withToken {store : DocumentStore} (sound : store.Sound)
    {key : QualifiedName} {other : Document} (found : store.get? key = some document) :
    document ≠ withToken other store.nextToken := by
  rintro rfl
  exact sound.next_unused found rfl

/-- A document that was labelled is another version, even if the labels were the only thing missing.
The version that was read is the stored one, so that the update is accepted and issues a fresh
token. -/
theorem replaced_by_mark {marked : Document} {result : Except ReconcileError Next}
    (sound : before.documents.Sound) (found : before.documents.get? document.key = some document)
    (named : document.metadata.ns ≠ none) (missing : document.marked? = some marked)
    (performs : Performs (Policy.mark marked) before result after) :
    after.documents.get? document.key ≠ some document := by
  obtain ⟨documents, -⟩ := performs.mark
  obtain ⟨-, labels, finalizers, rfl⟩ := marked?_eq_some missing
  have answered := @DocumentStore.update_of_current before.documents { document with
    metadata := { document.metadata with labels, finalizers } } document named found rfl
  intro same
  rw [documents] at same
  rcases before.documents.update_cases { document with
      metadata := { document.metadata with labels, finalizers } } with
    ⟨error, refused, -⟩ | ⟨stored, -, -, -, -, -, versions⟩
  · rw [answered] at refused
    cases refused
  · rw [versions] at same
    split at same
    · split at same
      · cases same
      · exact sound.ne_withToken found (Option.some.inj same).symm
    · rename_i other
      exact other rfl

/-- A document whose target was written is another version, even if the target is the status that it
had: the token of the stored version is accepted, and a fresh one is issued. -/
theorem replaced_by_target {target : Status} (sound : before.documents.Sound)
    (found : before.documents.get? document.key = some document)
    (written : after.documents = before.documents.targeted document target) :
    after.documents.get? document.key ≠ some document := by
  obtain ⟨number, -, token⟩ := sound.numbered _ _ found
  rw [written, DocumentStore.get?_targeted found token]
  exact fun same => sound.ne_withToken found (Option.some.inj same).symm

/-- A copy that has not failed, and has left a living document alone, has found the status that it
would have written. -/
theorem status_of_resting_copy {now : Timestamp} {lineage : List String} {sizing : Pool.Sizing}
    {outcome : RunOutcome} (sound : before.documents.Sound)
    (found : before.documents.get? document.key = some document)
    (living : document.isDeleting = false)
    (runs : (document.targetCopy now lineage sizing).Runs before (.ok outcome) after)
    (rests : after.documents.get? document.key = some document) :
    ∃ tree now', document.status = some (commitStatus document.status tree now') := by
  obtain ⟨history, pool, tree, backends, produced, working, -, performs⟩ := runs.cases
  obtain ⟨ends, -⟩ := ends_of_performs performs
  rw [working.documents] at ends
  obtain ⟨number, -, token⟩ := sound.numbered _ _ found
  have same : ∀ latest, before.documents.get? (document.targetCopy now lineage sizing).document.key =
      some latest → latest = document :=
    fun latest found' => Option.some.inj (found'.symm.trans found)
  by_cases stored : IsStored (.ok outcome)
  · obtain ⟨-, latest, token, version, now', found', -, left, status⟩ := ends.stored stored
    obtain rfl := same latest found'
    obtain rfl := Option.some.inj (left.symm.trans rests)
    exact ⟨tree, now', status⟩
  exfalso
  generalize ended : (Except.ok outcome : Except SyncError RunOutcome) = ending at ends stored
  generalize after.documents = left at ends
  cases ends with
  | failed => cases ended
  | gone absent =>
    have impossible := absent.symm.trans found
    cases impossible
  | released found' deleting =>
    obtain rfl := same _ found'
    rw [living] at deleting
    cases deleting
  | removed _ _ removes => cases removes
  | tokenless => cases ended
  | superseded found' _ _ _ moved =>
    obtain rfl := same _ found'
    exact moved rfl
  | unchanged => exact stored (.inl rfl)
  | committed => exact stored (.inr ⟨_, rfl⟩)

/-- If nothing has failed in a round that has left a ready document alone, all files of its status
are settled. -/
theorem settled_of_resting (sound : before.documents.Sound)
    (found : before.documents.get? document.key = some document)
    (fresh : document.isDeleting = true → document.status = none)
    (looks : policy.Looks document before middle (.ok .awaitChange) launched)
    (finished : SucceedAll launched middle after)
    (rests : after.documents.get? document.key = some document)
    (ready : document.statusOrInitial.IsReady) :
    ∀ file ∈ document.files.allFiles, file.phase.isSettled = true := by
  cases looks with
  | deleting deleting =>
    rw [statusOrInitial, fresh deleting] at ready
    exact absurd ready (by decide)
  | marked named _ missing performs =>
    cases finished
    exact absurd rests (replaced_by_mark sound found named missing performs)
  | advanced living _ advances =>
    cases advances with
    | cleared _ _ _ documents =>
      cases finished
      rcases documents with ⟨again, -⟩ | written
      · cases again
      · exact absurd rests (replaced_by_target sound found written)
    | entered _ _ _ _ written =>
      cases finished
      exact absurd rests (replaced_by_target sound found written)
    | launched _ _ _ _ same =>
      cases finished with
      | cons runs later =>
        cases later
        obtain ⟨tree, now, status⟩ :=
          status_of_resting_copy (same ▸ sound) (same ▸ found) living runs rests
        rw [statusOrInitial, status] at ready
        rw [Document.files, status]
        exact truthful_commitStatus document.status tree now ready

end Resting

/-- A round in which nothing fails leaves a ready document alone. -/
structure RestsReady (policy : Policy) (key : QualifiedName) (document : Document)
    (before after : Backends) : Prop where
  smooth : SmoothRound policy key before after
  found : before.documents.get? key = some document
  rests : after.documents.get? key = some document
  ready : document.statusOrInitial.IsReady

/-- Whether a driven round launches one run, nothing of it fails, and it leaves a ready document
alone, of which more is to be checked. -/
def Policy.restsReady (policy : Policy) (key : QualifiedName) (before : Backends)
    (more : Document → Backends → Bool) : Bool :=
  (before.documents.get? key).any fun document =>
    match (policy.reconcile document).drive before with
    | (.ok .awaitChange, [plan], middle) =>
      match plan.drive SyncPlan.alone false middle with
      | (.ok _, after) =>
        after.documents.get? key = some document && decide document.statusOrInitial.IsReady
          && more document after
      | _ => false
    | _ => false

/-- What is found out by driving a round is so: if the check says that the driven round rests,
launches one run and ends well, then there is such a round, and its document and its end are as they
were checked. -/
theorem restsReady_of_drive {policy : Policy} {key : QualifiedName} {before : Backends}
    {more : Document → Backends → Bool} (rests : policy.restsReady key before more = true) :
    ∃ document after, RestsReady policy key document before after ∧ more document after = true := by
  unfold Policy.restsReady at rests
  cases found : before.documents.get? key with
  | none => simp [found] at rests
  | some document =>
    rw [found, Option.any_some] at rests
    have carries := carries_drive (policy.reconcile document) before
    split at rests
    · rename_i plan middle driven
      rw [driven] at carries
      have runs := plan.runs_drive middle
      split at rests
      · rename_i outcome after ended
        rw [ended] at runs
        simp only [Bool.and_eq_true, decide_eq_true_eq] at rests
        obtain ⟨⟨same, ready⟩, more⟩ := rests
        exact ⟨document, after, ⟨.looked found carries (.cons runs (.nil after)), found, same, ready⟩,
          more⟩
      · cases rests
    · cases rests

end DatasetSync
