import DatasetSync.Proofs.Controller.Purging
import DatasetSync.Proofs.Controller.Turn
import DatasetSync.Proofs.Engine.Purge
import DatasetSync.Proofs.Sync.Securing

/-!
# What the cleanup of a deleted document comes to

A look at a deleted document purges what the status does not know, and then runs the removal of
what it knows. The two share out the places of the version, but for those that are known by paths
ending in a slash alone: the purge takes them for known, and the removal makes no job of such a path.

The purge passes on the failure of a removal, and the document keeps its finalizer. The removal run
does not: its jobs may fail, and the document is released all the same.
-/

namespace DatasetSync

namespace Document

variable {document : Document} {place : ObjectAddress}

/-- The place of a recorded path that names an object. -/
def Tracks (document : Document) (place : ObjectAddress) : Prop :=
  ∃ file ∈ document.files.allFiles,
    Text.endsWith '/' file.path = false ∧ document.place file.path = place

/-- A place that is recorded, but only by paths that end in a slash. -/
def RecordsFolder (document : Document) (place : ObjectAddress) : Prop :=
  (∃ file ∈ document.files.allFiles, document.place file.path = place) ∧
    ¬ document.Tracks place

/-- When a document is deleted, all of its recorded files are to be removed. -/
@[simp] theorem deleted_reconcileDeleted (document : Document) :
    document.reconcileDeleted.deleted = document.files := by
  unfold reconcileDeleted statusOrInitial files
  cases document.status <;> rfl

/-- A recorded path has its place among the objects of the version, as every path has. -/
theorem owns_place (document : Document) (path : String) : document.Owns (document.place path) :=
  ⟨rfl, _, rfl⟩

/-- A place of the version is missed unless it is recorded. Here a path that ends in a slash counts
as recorded, too. -/
theorem misses_iff : document.Misses document.files place ↔
    document.Owns place ∧ ¬ ∃ file ∈ document.files.allFiles, document.place file.path = place := by
  refine and_congr_right fun owned => not_congr ?_
  rw [trackedKeys, List.mem_map]
  refine exists_congr fun file => and_congr_right fun _ => ⟨fun same => ?_, fun same => ?_⟩
  · rw [Document.place, same, ← owned.1]
  · rw [← same]
    rfl

/-- What is not missed and has no job is recorded as a folder. So the purge and the removal run
share out the places of the version but for these. -/
theorem misses_or_tracks_iff :
    document.Misses document.files place ∨ document.Tracks place ↔
      document.Owns place ∧ ¬ document.RecordsFolder place := by
  rw [misses_iff, RecordsFolder]
  constructor
  · rintro (⟨owned, unrecorded⟩ | tracked)
    · exact ⟨owned, fun folder => unrecorded folder.1⟩
    · have owned : document.Owns place := by
        obtain ⟨file, -, -, rfl⟩ := tracked
        exact document.owns_place file.path
      exact ⟨owned, fun folder => folder.2 tracked⟩
  · rintro ⟨owned, other⟩
    by_cases tracked : document.Tracks place
    · exact .inr tracked
    · exact .inl ⟨owned, fun recorded => other ⟨recorded, tracked⟩⟩

/-- A purge is not barred where nothing is refused: neither its bucket nor a removal in it fails
then. -/
theorem not_bars {tracked : FileTree} {store : ObjectStore}
    (reliable : ∀ place, ¬ store.Refuses place) : ¬ document.Bars tracked store := by
  rintro (refused | ⟨place, -, -, refused⟩)
  · exact reliable ⟨document.datasetNs, ""⟩ (.inl refused)
  · exact reliable place refused

/-- The removal of all recorded files hits the places that are tracked, and no others. -/
theorem hits_removing_iff {sizing : Pool.Sizing} :
    (SyncPlan.removing document document.files sizing).Hits place ↔ document.Tracks place := by
  rw [SyncPlan.hits_iff rfl]
  unfold Tracks FileTree.allFiles
  constructor
  · rintro ⟨group, listed, file, member, ends, same⟩
    exact ⟨file, List.mem_flatMap.mpr ⟨group, listed, member⟩, ends, same⟩
  · rintro ⟨file, member, ends, same⟩
    obtain ⟨group, listed, member⟩ := List.mem_flatMap.mp member
    exact ⟨group, listed, file, member, ends, same⟩

end Document

/-- What a look at a deleted document with the finalizer comes to among nobody else. -/
inductive Document.Finalizes (document : Document) (before after : Backends)
    (result : Except ReconcileError Next) : Prop
  /-- The purge has failed: its bucket is refused, or a removal of it has failed. -/
  | barred {error : ReconcileError} (bars : document.Bars document.files before.objects)
      (fails : before.objects.RefusesBucket document.datasetNs ∨
        ∃ place, document.Misses document.files place ∧
          before.objects.FailsRemoval after.objects place)
      (failed : result = .error error) (documents : after.documents = before.documents)
  /-- The removal run was carried out, and is concluded. -/
  | finished {sizing : Pool.Sizing} {tree : FileTree} {middle : Backends}
      {outcome : Except SyncError RunOutcome}
      (free : ¬ document.Bars document.files before.objects)
      (account : before.objects.Account after.objects
        (fun place => document.Misses document.files place ∨
          document.Tracks place ∧ ¬ before.objects.Refuses place)
        (fun place => document.Tracks place ∧ before.objects.Refuses place)
        fun bucket => bucket = document.datasetNs ∧ document.files ≠ [])
      (documents : middle.documents = before.documents)
      (committed : Performs
        ((SyncPlan.removing document document.files sizing).commit tree) middle outcome after)
      (ends : (∃ next, result = .ok next) ↔ ∃ reached, outcome = .ok reached)

section Finalize

variable {policy : Policy} {key : String} {document : Document} {before after middle : Backends}
  {launched : List SyncPlan} {result : Except ReconcileError Next} {next : Next}

/-- Every way that the cleanup can take: the purge fails and nothing follows, or it ends well and
the removal run is carried out. The account of the whole joins that of the purge with that of the
run. -/
theorem finalizes_of_carries (guarded : document.IsGuarded)
    (carries : Carries (policy.finalize key document) before result launched after) :
    document.Finalizes before after result := by
  have present : document.finalizers.contains Document.finalizer = true := by
    simpa [Document.IsGuarded] using guarded
  rw [Policy.finalize_eq, if_pos present] at carries
  cases carries with
  | stop cleanup =>
    obtain ⟨purged, middle, performs, rest⟩ := Carries.calling cleanup
    have documents := performs.documents (Policy.purgeUntracked_spares _ _)
    rw [Document.deleted_reconcileDeleted] at performs rest
    rcases performs.purged with ⟨⟨error, rfl⟩, bars, fails⟩ | ⟨rfl, free, purge⟩
    · cases rest
      exact .barred bars fails rfl documents
    · cases rest with
      | @sync _ _ _ last _ outcome _ _ runs later =>
        have ends : after = last ∧
            ((∃ next, result = .ok next) ↔ ∃ reached, outcome = .ok reached) := by
          cases outcome <;> cases later <;> exact ⟨rfl, by simp⟩
        obtain ⟨rfl, ends⟩ := ends
        cases runs.disposes rfl with
        | barred some refused => exact absurd (.inl (purge.refusesBucket.mp refused)) free
        | done usable account same committed =>
          refine .finished free ((purge.trans account).congr (fun place _ => ?_) (fun place => ?_)
            fun bucket => ?_) (same.trans documents) committed ends
          · rw [Document.hits_removing_iff, purge.loses.refuses]
          · rw [Document.hits_removing_iff, purge.loses.refuses, false_or]
          · rw [false_or]
            exact .rfl

/-- The finalizers of the stored version are cleared without fail: an update of what is stored,
under the token that is stored, is not refused. -/
theorem finalized_of_release {latest : Document} {outcome : Except SyncError RunOutcome}
    (found : before.documents.get? latest.key = some latest) (named : latest.metadata.ns ≠ none)
    (performs : Performs (SyncPlan.release latest) before outcome after) :
    outcome = .ok .finalized := by
  have updated : (before.documents.update latest.unguarded).1 = _ :=
    @DocumentStore.update_of_current _ latest.unguarded latest named found rfl
  obtain ⟨now, later⟩ := performs_ask_iff.mp performs
  dsimp only [Program.done_bind] at later
  split at later
  · obtain ⟨rfl, -⟩ := performs_done_iff.mp later
    rfl
  · obtain ⟨rfl, -⟩ := performs_done_iff.mp later
    rfl
  · rename_i error _ failed
    have impossible := failed.symm.trans updated
    cases impossible

/-- A program that reads a stored version goes on with it, and changes nothing by that. -/
theorem Performs.read {α : Type} {name : QualifiedName} {latest : Document} {value : α}
    {next : Except StoreError (Option Document) → Calling α}
    (found : before.documents.get? name = some latest)
    (performs : Performs (.ask (.document (.get name)) next) before value after) :
    ∃ middle, middle.documents = before.documents ∧
      Performs (next (.ok (some latest))) middle value after := by
  obtain ⟨now, later⟩ := performs_ask_iff.mp performs
  have answered : ((before.atTime now).answer (.document (.get name))).1 = .ok (some latest) :=
    congrArg Except.ok found
  rw [answered] at later
  exact ⟨((before.atTime now).answer (.document (.get name))).2, rfl, later⟩

/-- The removal run of a deleted document reads it and clears its finalizers. How its jobs have
ended does not matter here. -/
theorem release_of_commit {sizing : Pool.Sizing} {tree : FileTree}
    {outcome : Except SyncError RunOutcome}
    (found : before.documents.get? document.key = some document)
    (deleting : document.isDeleting = true)
    (committed : Performs ((SyncPlan.removing document document.files sizing).commit tree) before
      outcome after) :
    ∃ middle, middle.documents = before.documents ∧
      Performs (SyncPlan.release document) middle outcome after := by
  obtain ⟨middle, same, later⟩ := Performs.read found committed
  dsimp only [Program.done_bind] at later
  rw [if_pos deleting] at later
  exact ⟨middle, same, later⟩

/-- The cleanup of a deleted document that is stored, has a namespace and is not barred ends well,
and releases the document. -/
theorem Document.Finalizes.released (finalizes : document.Finalizes before after result)
    (found : before.documents.get? document.key = some document)
    (deleting : document.isDeleting = true) (named : document.metadata.ns ≠ none)
    (free : ¬ document.Bars document.files before.objects) :
    (∃ next, result = .ok next) ∧ after.documents.get? document.key = none := by
  cases finalizes with
  | barred bars => exact absurd bars free
  | finished _ account documents committed ends =>
    rw [← documents] at found
    obtain ⟨last, same, releases⟩ := release_of_commit found deleting committed
    rw [← same] at found
    refine ⟨ends.mpr ⟨_, finalized_of_release found named releases⟩, ?_⟩
    obtain ⟨cleared, -⟩ := SyncPlan.performs_release releases
    rcases last.documents.update_cases document.unguarded with ⟨error, failed, -⟩ |
      ⟨stored, -, -, -, -, -, versions⟩
    · have updated : (last.documents.update document.unguarded).1 = _ :=
        @DocumentStore.update_of_current _ document.unguarded document named found rfl
      rw [failed] at updated
      cases updated
    · refine (congrArg (·.get? document.key) cleared).trans ((versions _).trans ?_)
      simp [DocumentStore.isReleased, deleting]

/-- The cleanup of a document that has no namespace, or of which the purge is barred, keeps it as
it was. -/
theorem Document.Finalizes.kept (finalizes : document.Finalizes before after result)
    (found : before.documents.get? document.key = some document)
    (deleting : document.isDeleting = true)
    (stuck : document.metadata.ns = none ∨ document.Bars document.files before.objects) :
    after.documents.get? document.key = some document := by
  cases finalizes with
  | barred bars fails failed documents => rw [documents, found]
  | finished free account documents committed ends =>
    have unnamed := stuck.resolve_right free
    rw [← documents] at found
    obtain ⟨last, same, releases⟩ := release_of_commit found deleting committed
    rw [← same] at found
    obtain ⟨cleared, -⟩ := SyncPlan.performs_release releases
    rcases last.documents.update_cases document.unguarded with ⟨-, -, kept | kept⟩ |
      ⟨stored, -, -, named, -⟩
    · rw [cleared, kept, found]
    · rw [cleared, kept, DocumentStore.get?_issue, found]
    · exact absurd unnamed named

/-- Where the cleanup is barred although the bucket of the dataset can be used, the removal of an
object that the status does not know has failed. -/
theorem Document.Finalizes.failsRemoval (finalizes : document.Finalizes before after result)
    (bars : document.Bars document.files before.objects)
    (usable : ¬ before.objects.RefusesBucket document.datasetNs) :
    ∃ place, document.Misses document.files place ∧
      before.objects.FailsRemoval after.objects place := by
  cases finalizes with
  | barred bars fails => exact fails.resolve_left usable
  | finished free => exact absurd bars free

/-- Where nothing is refused, a cleanup that ends well takes away the objects of the version and no
other one, and no bucket. Nothing is said about places that are recorded only by paths ending in a
slash. The bucket of the dataset is added if it is missing and the status lists a group. -/
theorem deletion_leaves_rest (guarded : document.IsGuarded)
    (reliable : ∀ place, ¬ before.objects.Refuses place)
    (carries : Carries (policy.finalize key document) before (.ok next) launched after) :
    (∀ place, document.Owns place → ¬ document.RecordsFolder place →
        ¬ after.objects.Holds place) ∧
      (∀ place, ¬ document.Owns place →
        (after.objects.Holds place ↔ before.objects.Holds place)) ∧
      ∀ bucket, after.objects.HasBucket bucket ↔
        before.objects.HasBucket bucket ∨ bucket = document.datasetNs ∧ document.files ≠ [] := by
  cases finalizes_of_carries guarded carries with
  | barred _ _ failed => cases failed
  | finished _ account =>
    have gone : ∀ place, (document.Misses document.files place ∨
        document.Tracks place ∧ ¬ before.objects.Refuses place) ↔
          document.Owns place ∧ ¬ document.RecordsFolder place := fun place => by
      rw [← Document.misses_or_tracks_iff, and_iff_left (reliable place)]
    refine ⟨fun place owned other held => ?_, fun place foreign => ?_, account.buckets⟩
    · exact ((account.loses.holds place).mp held).2 ((gone place).mpr ⟨owned, other⟩)
    · rw [account.loses.holds, and_iff_left fun removed => foreign ((gone place).mp removed).1]

/-- Surroundings in which a document was created and then marked deleted. -/
def deletedIn (document : Document) (objects : ObjectStore) : Backends where
  objects := objects
  documents := (DocumentStore.empty.write "2024-05-01T00:00:00+00:00" (.insert document)).write
    "2024-05-01T00:00:00+00:00" (.markDeleted document.key)
  table := default
  now := "2024-05-01T00:00:00+00:00"

/-- The stored version of a document that was created and then marked deleted. -/
def Document.deletedVersion (document : Document) : Document :=
  DocumentStore.withToken { document with metadata := { document.metadata with
    deletionTimestamp := some "2024-05-01T00:00:00+00:00" } } "2"

/-- The cleanup of a marked document without files. -/
def emptyCleanup : Controlling (Except ReconcileError Next) :=
  (default : Policy).finalize "team-a/ds-v1" Engine.markedDocument.deletedVersion

/-- Where nothing is refused, the cleanup of the marked document releases it, as it has no recorded
files that could be in the way. -/
theorem emptyCleanup_releases {objects : ObjectStore}
    (reliable : ∀ place, ¬ objects.Refuses place) :
    ∃ next launched after, Carries emptyCleanup (deletedIn Engine.markedDocument objects)
        (.ok next) launched after ∧
      after.documents.get? Engine.markedDocument.key = none ∧
      Document.Finalizes Engine.markedDocument.deletedVersion
        (deletedIn Engine.markedDocument objects) after (.ok next) := by
  obtain ⟨result, launched, after, carries⟩ :=
    exists_carries emptyCleanup (deletedIn Engine.markedDocument objects)
  have guarded : Engine.markedDocument.deletedVersion.IsGuarded := List.mem_cons_self
  have finalizes := finalizes_of_carries guarded carries
  obtain ⟨⟨next, rfl⟩, gone⟩ := finalizes.released rfl rfl (by decide)
    (Document.not_bars reliable)
  exact ⟨next, launched, after, carries, gone, finalizes⟩

/-- A cleanup makes the bucket of the dataset where it is missing, although nothing can be removed
from it. -/
theorem deletion_adds_bucket :
    ∃ before next launched after,
      before.documents.get? Engine.markedDocument.key =
          some Engine.markedDocument.deletedVersion ∧
        Engine.markedDocument.deletedVersion.isDeleting = true ∧
        Engine.markedDocument.deletedVersion.IsGuarded ∧
        (∀ place, ¬ before.objects.Refuses place) ∧
        Carries emptyCleanup before (.ok next) launched after ∧
        after.documents.get? Engine.markedDocument.key = none ∧
        ∃ bucket, after.objects.HasBucket bucket ∧ ¬ before.objects.HasBucket bucket := by
  have reliable : ∀ place, ¬ ObjectStore.empty.Refuses place := by
    rintro place (refused | refused) <;> exact refused rfl
  obtain ⟨next, launched, after, carries, gone, finalizes⟩ := emptyCleanup_releases reliable
  refine ⟨deletedIn Engine.markedDocument .empty, next, launched, after, rfl, rfl,
    List.mem_cons_self, reliable, carries, gone, "team-a", ?_, fun there => there rfl⟩
  cases finalizes with
  | barred _ _ failed => cases failed
  | finished _ account => exact (account.buckets "team-a").mpr (.inr ⟨rfl, by decide⟩)

/-- Objects of the version and other objects of one bucket. -/
def mixedObjects : ObjectStore :=
  (ObjectStore.empty.putObject "team-a" "dataset/ds/v1/stray.txt").putObject "team-a" "other.txt"

/-- A cleanup removes a stray object of the version, and leaves another object of the same bucket
alone. -/
theorem deletion_leaves_other_object :
    ∃ next launched after,
      Carries emptyCleanup (deletedIn Engine.markedDocument mixedObjects) (.ok next) launched
          after ∧
        mixedObjects.Holds ⟨"team-a", "dataset/ds/v1/stray.txt"⟩ ∧
        ¬ after.objects.Holds ⟨"team-a", "dataset/ds/v1/stray.txt"⟩ ∧
        after.objects.Holds ⟨"team-a", "other.txt"⟩ := by
  have reliable : ∀ place, ¬ mixedObjects.Refuses place := by
    rintro place (refused | refused) <;> exact refused rfl
  obtain ⟨next, launched, after, carries, -⟩ := emptyCleanup_releases reliable
  have guarded : Engine.markedDocument.deletedVersion.IsGuarded := List.mem_cons_self
  obtain ⟨gone, kept, -⟩ := deletion_leaves_rest guarded reliable carries
  refine ⟨next, launched, after, carries, rfl, gone _ ⟨rfl, "stray.txt", by decide⟩ ?_,
    (kept ⟨"team-a", "other.txt"⟩ ?_).mpr rfl⟩
  · rintro ⟨⟨file, member, -⟩, -⟩
    cases member
  · exact fun owned => absurd (Document.owns_iff.mp owned) (by decide)

/-- If a removal fails in the cleanup of a deleted document, the document is kept with its
finalizer: this holds exactly if the document has no namespace, or the purge is barred, or no
object of a recorded path is one that cannot be removed. -/
theorem failed_removal_keeps_finalizer_iff
    (found : before.documents.get? document.key = some document)
    (deleting : document.isDeleting = true) (guarded : document.IsGuarded)
    (carries : Carries (policy.finalize key document) before result launched after) :
    ((∃ place, before.objects.FailsRemoval after.objects place) →
      ∃ stored, after.documents.get? document.key = some stored ∧ stored.IsGuarded) ↔
    document.metadata.ns = none ∨ document.Bars document.files before.objects ∨
      ∀ place, document.Tracks place → ¬ before.objects.Refuses place := by
  have finalizes := finalizes_of_carries guarded carries
  by_cases stuck : document.metadata.ns = none ∨ document.Bars document.files before.objects
  · have kept := finalizes.kept found deleting stuck
    exact iff_of_true (fun _ => ⟨document, kept, guarded⟩) (stuck.imp_right .inl)
  · obtain ⟨named, free⟩ := not_or.mp stuck
    obtain ⟨-, gone⟩ := finalizes.released found deleting named free
    cases finalizes with
    | barred bars => exact absurd bars free
    | finished _ account =>
      simp only [gone, account.fails, named, free, false_or, reduceCtorEq, false_and, exists_false]
      exact ⟨fun none place tracked refused => none ⟨place, tracked, refused⟩,
        fun allowed ⟨place, tracked, refused⟩ => allowed place tracked refused⟩

/-- The marked document with one synced file. -/
def syncedDocument : Document :=
  { Engine.markedDocument with
    status := some
      { conditions := [], files := [⟨Policy.sharedSource "x", [.blank "a.txt" .succeeded]⟩] } }

/-- Objects of the version of which one cannot be removed. -/
def stuckObjects (key : String) : ObjectStore :=
  ((ObjectStore.empty.putObject "team-a" "dataset/ds/v1/a.txt").putObject "team-a"
    "dataset/ds/v1/stray.txt").failKey key "access denied"

/-- Among the stuck objects only the given key is refused. -/
theorem refuses_stuckObjects {key : String} {place : ObjectAddress} :
    (stuckObjects key).Refuses place ↔ place.key = key := by
  have lookup : (stuckObjects key).failingKeys.get? place.key =
      if key = place.key then some "access denied" else none :=
    OrderedMap.get?_insert OrderedMap.empty key "access denied" place.key
  have usable : (stuckObjects key).failingBuckets.get? place.bucket = none := rfl
  simp [ObjectStore.Refuses, lookup, usable, eq_comm]

/-- The recorded file of a deleted document cannot be removed, and the document is released: the
removal run only notes the failure, and clears the finalizers. -/
theorem failed_removal_loses_finalizer :
    ∃ before result launched after place,
      before.documents.get? syncedDocument.key = some syncedDocument.deletedVersion ∧
        syncedDocument.deletedVersion.isDeleting = true ∧
        syncedDocument.deletedVersion.IsGuarded ∧
        Carries ((default : Policy).finalize "team-a/ds-v1" syncedDocument.deletedVersion) before
          result launched after ∧
        before.objects.FailsRemoval after.objects place ∧
        after.documents.get? syncedDocument.key = none := by
  let before := deletedIn syncedDocument (stuckObjects "dataset/ds/v1/a.txt")
  obtain ⟨result, launched, after, carries⟩ := exists_carries
    ((default : Policy).finalize "team-a/ds-v1" syncedDocument.deletedVersion) before
  have guarded : syncedDocument.deletedVersion.IsGuarded := List.mem_cons_self
  have finalizes := finalizes_of_carries guarded carries
  have free : ¬ syncedDocument.deletedVersion.Bars syncedDocument.deletedVersion.files
      before.objects := by
    rintro (refused | ⟨place, missed, -, refused⟩)
    · exact refused rfl
    · have tracked : "dataset/ds/v1/a.txt" ∈ syncedDocument.deletedVersion.trackedKeys
          syncedDocument.deletedVersion.files := by decide
      exact missed.2 (refuses_stuckObjects.mp refused ▸ tracked)
  obtain ⟨-, gone⟩ := finalizes.released rfl rfl (by decide) free
  refine ⟨before, result, launched, after, ⟨"team-a", "dataset/ds/v1/a.txt"⟩, rfl, rfl,
    guarded, carries, ?_, gone⟩
  cases finalizes with
  | barred bars => exact absurd bars free
  | finished _ account =>
    exact (account.fails _).mpr ⟨⟨.blank "a.txt" .succeeded, by decide, by decide, rfl⟩,
      refuses_stuckObjects.mpr rfl⟩

/-- A stray object cannot be removed: its removal fails in the purge, and the document is kept with
its finalizer. -/
theorem failed_purge_keeps_finalizer :
    ∃ result launched after,
      Carries ((default : Policy).finalize "team-a/ds-v1" syncedDocument.deletedVersion)
        (deletedIn syncedDocument (stuckObjects "dataset/ds/v1/stray.txt")) result launched
        after ∧
      (∃ place, (stuckObjects "dataset/ds/v1/stray.txt").FailsRemoval after.objects place) ∧
      ∃ stored, after.documents.get? syncedDocument.key = some stored ∧ stored.IsGuarded := by
  obtain ⟨result, launched, after, carries⟩ := exists_carries
    ((default : Policy).finalize "team-a/ds-v1" syncedDocument.deletedVersion)
    (deletedIn syncedDocument (stuckObjects "dataset/ds/v1/stray.txt"))
  have bars : syncedDocument.deletedVersion.Bars syncedDocument.deletedVersion.files
      (stuckObjects "dataset/ds/v1/stray.txt") :=
    .inr ⟨⟨"team-a", "dataset/ds/v1/stray.txt"⟩, ⟨⟨rfl, "stray.txt", by decide⟩, by decide⟩, rfl,
      refuses_stuckObjects.mpr rfl⟩
  have found : (deletedIn syncedDocument (stuckObjects "dataset/ds/v1/stray.txt")).documents.get?
      syncedDocument.deletedVersion.key = some syncedDocument.deletedVersion := rfl
  have guarded : syncedDocument.deletedVersion.IsGuarded := List.mem_cons_self
  obtain ⟨place, -, fails⟩ := (finalizes_of_carries guarded carries).failsRemoval bars
    (not_not_intro rfl)
  have kept := (failed_removal_keeps_finalizer_iff found rfl guarded carries).mpr
    (.inr (.inl bars))
  exact ⟨result, launched, after, carries, ⟨place, fails⟩, kept ⟨place, fails⟩⟩

end Finalize

end DatasetSync
