import DatasetSync.Proofs.Controller.Deletion
import DatasetSync.Proofs.FileTree.Aligned

/-!
# What a look forgets

A look that finds files recorded but not declared runs their removal, and then writes the target,
in which they are no more. The target was made before the removal, and the run does not say which
of its jobs have failed. So files are forgotten whose objects are still there: those that could not
be removed, and those that are recorded only by paths ending in a slash, for which there are no
jobs. Otherwise a file is forgotten only when its object is gone.
-/

namespace DatasetSync

namespace Document

/-- From a document to a later version of it, no file was forgotten before its object was gone, and
none at all that could not be removed. -/
structure ForgetsGone (document : Document) (before after : ObjectStore) (later : Document) :
    Prop where
  /-- A file that is recorded no more has no object, unless it shares one with a recorded file. -/
  gone : ∀ source path, document.files.Lists document.ns source path →
    ¬ later.files.Lists document.ns source path →
    (∀ source' path', later.files.Lists document.ns source' path' →
      document.place path' ≠ document.place path) →
    ¬ after.Holds (document.place path)
  /-- A file whose removal has failed is still recorded. -/
  retried : ∀ source path, document.files.Lists document.ns source path →
    before.FailsRemoval after (document.place path) → later.files.Lists document.ns source path

/-- A file that is recorded but not declared has no job in the removal: for its place only paths
that end in a slash are undeclared, and no declared file shares it. -/
structure Skips (document : Document) (lineage : List String) (place : ObjectAddress) : Prop where
  undeclared : ∃ source path, document.files.Lists document.ns source path ∧
    ¬ (document.declaredTree lineage).Lists document.ns source path ∧ document.place path = place
  unmet : ¬ document.Strays lineage place
  alone : ∀ source path, (document.declaredTree lineage).Lists document.ns source path →
    document.place path ≠ place

/-- A look at a living document gets as far as writing its target: it has nothing else to do
first, and nothing keeps it from comparing and from using its bucket. -/
structure Aligns (document : Document) (store : ObjectStore) (lineage : List String) : Prop where
  named : document.metadata.ns ≠ none
  marked : document.isMarked = true
  tokened : document.versionToken ≠ none
  listed : document.lineageIn store = .ok lineage
  usable : ¬ store.RefusesBucket document.datasetNs

/-- What a look at a living document makes of its records, and of the objects. -/
inductive Sheds (document : Document) (before after : Backends) : Prop
  /-- It keeps all records. If it could have written a target, there was nothing to remove. -/
  | keeps {later : Document} (stored : after.documents.get? document.key = some later)
      (kept : ∀ source path, document.files.Lists document.ns source path →
        later.files.Lists document.ns source path)
      (idle : ∀ lineage, document.Aligns before.objects lineage →
        ∀ now, (document.reconcile now lineage).deleted = [])
  /-- It writes its target, after the removal of what is not declared any more. -/
  | sheds {now : Timestamp} {lineage : List String} {token : String}
      (aligns : document.Aligns before.objects lineage)
      (account : before.objects.Account after.objects
        (fun place => document.Strays lineage place ∧ ¬ before.objects.Refuses place)
        (fun place => document.Strays lineage place ∧ before.objects.Refuses place)
        fun bucket => bucket = document.datasetNs)
      (stored : after.documents.get? document.key = some (DocumentStore.withToken
        { document with status := some (document.reconcile now lineage).target } token))

end Document

/-- A listing of the parent version is asked for at most once, and takes nothing away. -/
theorem Performs.account_listLineage {document : Document}
    {listed : Except StorageError (List String)} {before after : Backends}
    (performs : Performs document.listLineage before listed after) :
    before.objects.Account after.objects (fun _ => False) (fun _ => False) fun _ => False := by
  unfold Document.listLineage at performs
  cases inherits : document.spec.parent? with
  | none =>
    rw [inherits] at performs
    obtain ⟨-, now, rfl⟩ := performs_done_iff.mp performs
    exact .refl before.objects
  | some parent =>
    rw [inherits] at performs
    obtain ⟨now, later⟩ := performs_ask_iff.mp performs
    obtain ⟨-, now', rfl⟩ := performs_done_iff.mp later
    exact @ObjectStore.account_of_same before.objects (.listObjects document.datasetNs
      (Layout.versionPrefix document.datasetName parent) true) rfl (by simp)

/-- The removal run of a living document that is stored ends as a removal, and writes nothing. -/
theorem removed_of_commit {plan : SyncPlan} {tree : FileTree} {before after : Backends}
    {outcome : Except SyncError RunOutcome} (removes : plan.mode = .remove)
    (found : before.documents.get? plan.document.key = some plan.document)
    (living : plan.document.isDeleting = false)
    (committed : Performs (plan.commit tree) before outcome after) :
    outcome = .ok .removed ∧ after.documents = before.documents := by
  obtain ⟨middle, same, later⟩ := Performs.read found committed
  dsimp only [Program.done_bind] at later
  rw [if_neg (by simp [living]), if_pos removes] at later
  obtain ⟨rfl, now, rfl⟩ := performs_done_iff.mp later
  exact ⟨rfl, same⟩

section Look

variable {policy : Policy} {document : Document} {before middle after : Backends} {key : String}
  {launched : List SyncPlan} {result : Except ReconcileError Next} {now : Timestamp}
  {lineage : List String}

/-- A look that leaves the stored document as it is keeps all records. It must not have had anything
to remove. -/
theorem Document.Sheds.unwritten (stored : after.documents.get? document.key = some document)
    (idle : ∀ lineage, document.Aligns before.objects lineage →
      ∀ now, (document.reconcile now lineage).deleted = []) : document.Sheds before after :=
  .keeps stored (fun _ _ recorded => recorded) idle

/-- A look that removes nothing keeps all records, whether or not it writes its target: what the
target does not list would have been removed. -/
theorem sheds_of_target (found : before.documents.get? document.key = some document)
    (listed : document.lineageIn before.objects = .ok lineage)
    (nothing : (document.reconcile now lineage).deleted = [])
    (written : after.documents = before.documents ∨
      after.documents =
        before.documents.targeted document (document.reconcile now lineage).target) :
    document.Sheds before after := by
  have declared := Document.deleted_eq_nil_iff.mp nothing
  have idle : ∀ lineage', document.Aligns before.objects lineage' →
      ∀ now, (document.reconcile now lineage').deleted = [] := by
    intro lineage' aligns now'
    obtain rfl := Except.ok.inj (listed.symm.trans aligns.listed)
    exact Document.deleted_eq_nil_iff.mpr declared
  cases snapshot : document.versionToken with
  | none =>
    have same : after.documents = before.documents := by
      rcases written with same | written
      · exact same
      · rw [written, DocumentStore.targeted, snapshot]
    exact .unwritten (by rw [same, found]) idle
  | some token =>
    rcases written with same | written
    · exact .unwritten (by rw [same, found]) idle
    · have replaced := @DocumentStore.get?_targeted _ _ (document.reconcile now lineage).target _
        found snapshot
      rw [← written] at replaced
      exact .keeps replaced
        (fun source path recorded => Document.lists_target_iff.mpr (declared source path recorded))
        idle

/-- A look that has something to remove keeps all records if it cannot write its target; otherwise
it writes it after the removal. -/
theorem sheds_of_removal {middle' : Backends} {outcome : Except SyncError RunOutcome}
    (found : before.documents.get? document.key = some document)
    (living : document.isDeleting = false) (named : document.metadata.ns ≠ none)
    (marked : document.isMarked = true)
    (listed : document.lineageIn before.objects = .ok lineage)
    (documents : middle.documents = before.documents)
    (asked : before.objects.Account middle.objects (fun _ => False) (fun _ => False)
      fun _ => False)
    (strays : (document.reconcile now lineage).deleted ≠ [])
    (runs : (policy.removal document now lineage).Runs middle outcome middle')
    (later : Carries (match outcome with
      | .error _ => .done (.ok (.requeue policy.requeueAfter))
      | .ok _ => Controlling.calling
          (Policy.writeTarget document (document.reconcile now lineage).target))
      middle' result launched after) :
    document.Sheds before after := by
  cases runs.disposes rfl with
  | barred some refused failed same =>
    subst failed
    cases later
    refine .unwritten (by rw [same, documents, found]) ?_
    exact fun _ aligns => absurd (asked.refusesBucket.mp refused) aligns.usable
  | done usable account same committed =>
    rw [← documents, ← same] at found
    obtain ⟨rfl, unwritten⟩ := removed_of_commit rfl found living committed
    dsimp only at later
    rw [← Program.bind_done (Controlling.calling _)] at later
    obtain ⟨reached, last, performs, rest⟩ := Carries.calling later
    cases rest
    obtain ⟨written, objects⟩ := performs.target
    cases snapshot : document.versionToken with
    | none =>
      rw [DocumentStore.targeted, snapshot] at written
      refine .unwritten (by rw [written, unwritten, found]) ?_
      exact fun _ aligns => absurd snapshot aligns.tokened
    | some token =>
      have usable' : ¬ before.objects.RefusesBucket document.datasetNs :=
        fun refused => usable strays (asked.refusesBucket.mpr refused)
      have aligns : document.Aligns before.objects lineage :=
        ⟨named, marked, by simp [snapshot], listed, usable'⟩
      rw [← unwritten] at found
      have replaced := @DocumentStore.get?_targeted _ _ (document.reconcile now lineage).target _
        found snapshot
      rw [← written] at replaced
      refine .sheds aligns ?_ replaced
      rw [objects]
      refine (asked.trans account).congr (fun place _ => ?_) (fun place => ?_) fun bucket => ?_
      · rw [Policy.hits_removal_iff, asked.loses.refuses, false_or]
      · rw [Policy.hits_removal_iff, asked.loses.refuses, false_or]
      · rw [false_or]
        exact or_congr_right (and_iff_left strays)

/-- Every way that a look at a living, marked document can take: it removes something and writes its
target, it writes its target without a removal, or it launches a copy. -/
theorem sheds_of_advance (found : before.documents.get? document.key = some document)
    (living : document.isDeleting = false) (named : document.metadata.ns ≠ none)
    (marked : document.isMarked = true)
    (carries : Carries (policy.advance key document) before result launched after) :
    document.Sheds before after := by
  obtain ⟨listing, asked, performs, rest⟩ := Carries.calling carries
  have account := performs.account_listLineage
  obtain ⟨rfl, documents, -⟩ := performs.listed
  cases listed : document.lineageIn before.objects with
  | error error =>
    rw [listed] at rest
    cases rest
    refine .unwritten (by rw [documents, found]) ?_
    intro lineage aligns
    have impossible := listed.symm.trans aligns.listed
    cases impossible
  | ok lineage =>
    rw [listed] at rest
    obtain ⟨now, clocked, performs', rest'⟩ := Carries.calling rest
    obtain ⟨documents', objects'⟩ := performs'.clock
    have same := documents'.trans documents
    rw [← objects'] at account
    dsimp only [Program.done_bind] at rest'
    split at rest'
    · unfold Policy.applyOutcome at rest'
      split at rest'
      · rename_i empty
        rw [← Program.bind_done (Controlling.calling _)] at rest'
        obtain ⟨reached, middle, performs, rest⟩ := Carries.calling rest'
        cases rest
        obtain ⟨written, -⟩ := performs.target
        exact sheds_of_target found listed (List.isEmpty_iff.mp empty) (.inr (same ▸ written))
      · rename_i filled
        have strays : (document.reconcile now lineage).deleted ≠ [] :=
          fun nothing => filled (List.isEmpty_iff.mpr nothing)
        cases rest' with
        | sync runs later =>
          exact sheds_of_removal found living named marked listed same account strays runs later
    · rename_i quiet
      simp only [Bool.or_eq_true, Bool.not_eq_true', not_or, Bool.not_eq_true,
        Bool.not_eq_false, List.isEmpty_iff] at quiet
      cases rest' with
      | launch id last =>
        cases last
        exact sheds_of_target found listed quiet.2 (.inl same)

/-- Every way that a look at a living document can take. A document that is not marked yet is only
marked. -/
theorem sheds_of_carries (found : before.documents.get? document.key = some document)
    (living : document.isDeleting = false)
    (carries : Carries (policy.reconcile document) before result launched after) :
    document.Sheds before after := by
  unfold Policy.reconcile at carries
  split at carries
  · rename_i unnamed
    cases carries
    exact .unwritten found fun _ aligns =>
      absurd unnamed aligns.named
  rename_i ns same
  have named : document.metadata.ns ≠ none := by simp [same]
  rw [if_neg (by simp [living])] at carries
  cases missing : document.marked? with
  | none =>
    rw [missing] at carries
    exact sheds_of_advance found living named (Document.marked?_eq_none_iff.mp missing) carries
  | some marked =>
    rw [missing] at carries
    dsimp only at carries
    rw [← Program.bind_done (Controlling.calling _)] at carries
    obtain ⟨reached, middle, performs, rest⟩ := Carries.calling carries
    cases rest
    obtain ⟨written, -⟩ := performs.mark
    have idle : ∀ lineage, document.Aligns before.objects lineage →
        ∀ now, (document.reconcile now lineage).deleted = [] := fun _ aligns => by
      rw [Document.marked?_eq_none_iff.mpr aligns.marked] at missing
      cases missing
    obtain ⟨-, labels, finalizers, own⟩ := Document.marked?_eq_some missing
    rcases before.documents.update_cases marked with ⟨-, -, kept | kept⟩ |
      ⟨stored, found', -, -, -, -, versions⟩
    · exact .unwritten (by rw [written, kept, found]) idle
    · exact .unwritten (by rw [written, kept, DocumentStore.get?_issue, found]) idle
    · have sameKey : marked.key = document.key := by rw [own]; rfl
      have alive : DocumentStore.isReleased marked = false := by
        rw [own]
        exact Bool.and_eq_false_iff.mpr (.inl living)
      rw [sameKey] at found'
      obtain rfl := Option.some.inj (found.symm.trans found')
      have replaced := (congrArg (·.get? document.key) written).trans (versions document.key)
      rw [if_pos sameKey, alive] at replaced
      exact .keeps replaced (fun source path recorded => recorded) idle

/-- A look at a living document forgets no file before its object is gone, and none that could not
be removed: this holds exactly if, wherever the look can write its target, no file that it is to
remove is one that cannot be removed, and no file that it skips has an object. -/
theorem forgets_gone_iff (found : before.documents.get? document.key = some document)
    (living : document.isDeleting = false)
    (carries : Carries (policy.reconcile document) before result launched after) :
    (∃ later, after.documents.get? document.key = some later ∧
      document.ForgetsGone before.objects after.objects later) ↔
    ∀ lineage, document.Aligns before.objects lineage →
      (∀ place, document.Strays lineage place → ¬ before.objects.Refuses place) ∧
        ∀ place, document.Skips lineage place → ¬ before.objects.Holds place := by
  cases sheds_of_carries found living carries with
  | keeps stored kept idle =>
    refine iff_of_true ⟨_, stored, fun source path recorded forgotten => ?_, ?_⟩ ?_
    · exact absurd (kept source path recorded) forgotten
    · exact fun source path recorded _ => kept source path recorded
    · intro lineage aligns
      have declared := Document.deleted_eq_nil_iff.mp (idle lineage aligns default)
      constructor
      · rintro place ⟨source, path, recorded, undeclared, -⟩
        exact absurd (declared source path recorded) undeclared
      · rintro place ⟨⟨source, path, recorded, undeclared, -⟩, -, -⟩
        exact absurd (declared source path recorded) undeclared
  | @sheds now lineage token aligns account stored =>
    have listed : ∀ source path, (DocumentStore.withToken { document with
        status := some (document.reconcile now lineage).target } token).files.Lists document.ns
          source path ↔ (document.declaredTree lineage).Lists document.ns source path :=
      fun source path => Document.lists_target_iff
    constructor
    · rintro ⟨later, found', gone, retried⟩ lineage' aligns'
      obtain rfl := Option.some.inj (stored.symm.trans found')
      obtain rfl := Except.ok.inj (aligns.listed.symm.trans aligns'.listed)
      constructor
      · rintro place strays refused
        have failed := (account.fails place).mpr ⟨strays, refused⟩
        obtain ⟨source, path, recorded, undeclared, -, rfl⟩ := strays
        exact undeclared ((listed source path).mp (retried source path recorded failed))
      · rintro place ⟨⟨source, path, recorded, undeclared, rfl⟩, unmet, alone⟩ held
        refine gone source path recorded (fun kept => undeclared ((listed _ _).mp kept))
          (fun source' path' kept => alone source' path' ((listed _ _).mp kept)) ?_
        exact (account.loses.holds _).mpr ⟨held, fun removed => unmet removed.1⟩
    · intro removable
      obtain ⟨allowed, bare⟩ := removable lineage aligns
      refine ⟨_, stored, fun source path recorded forgotten unshared held => ?_,
        fun source path recorded failed => ?_⟩
      · obtain ⟨former, stays⟩ := (account.loses.holds _).mp held
        rw [listed] at forgotten
        refine bare _ ⟨⟨source, path, recorded, forgotten, rfl⟩, fun strays => ?_, ?_⟩ former
        · exact stays ⟨strays, allowed _ strays⟩
        · exact fun source' path' declared => unshared source' path' ((listed _ _).mpr declared)
      · obtain ⟨strays, refused⟩ := (account.fails _).mp failed
        exact absurd refused (allowed _ strays)

end Look

/-- Surroundings in which the synced document is stored, and is not declared to have any file. -/
def syncedIn (objects : ObjectStore) : Backends where
  objects := objects
  documents := DocumentStore.empty.write "2024-05-01T00:00:00+00:00" (.insert syncedDocument)
  table := default
  now := "2024-05-01T00:00:00+00:00"

/-- The stored version of the synced document. -/
def syncedVersion : Document := DocumentStore.withToken syncedDocument "1"

/-- The synced document records one file, under the one source that it was copied from. -/
theorem lists_syncedVersion_iff {source : QualifiedName} {path : String} :
    syncedVersion.files.Lists syncedVersion.ns source path ↔
      source = ⟨"team-a", "x"⟩ ∧ path = "a.txt" := by
  have entries : FileTree.entries syncedVersion.ns syncedVersion.files =
      [(⟨"team-a", "x"⟩, "a.txt")] := by decide
  rw [← FileTree.mem_entries_iff, entries, List.mem_singleton, Prod.mk.injEq]

/-- The synced document declares no file, so that all that it records is to be removed. -/
theorem not_lists_declared {source : QualifiedName} {path : String} :
    ¬ (syncedVersion.declaredTree []).Lists syncedVersion.ns source path := by
  have entries : FileTree.entries syncedVersion.ns (syncedVersion.declaredTree []) = [] := by
    decide
  rw [← FileTree.mem_entries_iff, entries]
  exact List.not_mem_nil

/-- The recorded file of the synced document is to be removed: it is listed and not declared any
more. -/
theorem strays_syncedVersion : syncedVersion.Strays [] ⟨"team-a", "dataset/ds/v1/a.txt"⟩ :=
  ⟨⟨"team-a", "x"⟩, "a.txt", lists_syncedVersion_iff.mpr ⟨rfl, rfl⟩, not_lists_declared,
    by decide, rfl⟩

/-- The object of a file cannot be removed, and a look forgets the file. Its removal has failed, its
object is still there, and the status that is written does not list it. -/
theorem forgets_stuck_file :
    ∃ before result launched after later source path,
      before.documents.get? syncedVersion.key = some syncedVersion ∧
        syncedVersion.isDeleting = false ∧
        Carries ((default : Policy).reconcile syncedVersion) before result launched after ∧
        after.documents.get? syncedVersion.key = some later ∧
        syncedVersion.files.Lists syncedVersion.ns source path ∧
        before.objects.FailsRemoval after.objects (syncedVersion.place path) ∧
        after.objects.Holds (syncedVersion.place path) ∧
        ∀ source path, ¬ later.files.Lists syncedVersion.ns source path := by
  let objects := stuckObjects "dataset/ds/v1/a.txt"
  obtain ⟨result, launched, after, carries⟩ :=
    exists_carries ((default : Policy).reconcile syncedVersion) (syncedIn objects)
  have found : (syncedIn objects).documents.get? syncedVersion.key = some syncedVersion := rfl
  have aligns : syncedVersion.Aligns objects [] :=
    ⟨by decide, by decide, by decide, rfl, not_not_intro rfl⟩
  cases sheds_of_carries found rfl carries with
  | keeps stored kept idle =>
    have declared := Document.deleted_eq_nil_iff.mp (idle [] aligns default)
    exact absurd (declared _ _ (lists_syncedVersion_iff.mpr ⟨rfl, rfl⟩)) not_lists_declared
  | sheds aligns' account stored =>
    obtain rfl := Except.ok.inj (aligns.listed.symm.trans aligns'.listed)
    have refused : objects.Refuses ⟨"team-a", "dataset/ds/v1/a.txt"⟩ :=
      refuses_stuckObjects.mpr rfl
    refine ⟨syncedIn objects, result, launched, after, _, ⟨"team-a", "x"⟩, "a.txt", found, rfl,
      carries, stored, lists_syncedVersion_iff.mpr ⟨rfl, rfl⟩,
      (account.fails _).mpr ⟨strays_syncedVersion, refused⟩,
      (account.loses.holds _).mpr ⟨rfl, fun removed => removed.2 refused⟩, fun source path => ?_⟩
    exact fun listed => not_lists_declared (Document.lists_target_iff.mp listed)

/-- A look forgets a file whose object can be removed, and its object is gone. That another object
cannot be removed does not matter. -/
theorem forgets_removed_file :
    ∃ result launched after,
      Carries ((default : Policy).reconcile syncedVersion)
          (syncedIn (stuckObjects "dataset/ds/v1/stray.txt")) result launched after ∧
        ∃ later, after.documents.get? syncedVersion.key = some later ∧
          syncedVersion.ForgetsGone (stuckObjects "dataset/ds/v1/stray.txt") after.objects
            later := by
  let before := syncedIn (stuckObjects "dataset/ds/v1/stray.txt")
  obtain ⟨result, launched, after, carries⟩ :=
    exists_carries ((default : Policy).reconcile syncedVersion) before
  have found : before.documents.get? syncedVersion.key = some syncedVersion := rfl
  refine ⟨result, launched, after, carries,
    (forgets_gone_iff found rfl carries).mpr fun lineage aligns => ?_⟩
  obtain rfl := Except.ok.inj (aligns.listed.symm.trans (rfl : _ = Except.ok []))
  constructor
  · rintro place ⟨source, path, recorded, -, -, rfl⟩ refused
    obtain ⟨-, rfl⟩ := lists_syncedVersion_iff.mp recorded
    exact absurd (refuses_stuckObjects.mp refused) (by decide)
  · rintro place ⟨⟨source, path, recorded, -, rfl⟩, unmet, -⟩
    obtain ⟨-, rfl⟩ := lists_syncedVersion_iff.mp recorded
    exact absurd strays_syncedVersion unmet

end DatasetSync
