import DatasetSync.Proofs.Controller.Effect
import DatasetSync.Proofs.Store.Account

/-!
# What a purge does among nobody else

A purge lists the keys of a version and removes those that the status does not know, one after the
other, and stops at the first removal that fails. So a purge that ends well has failed at nothing:
it has removed exactly the unknown objects of the version. It fails exactly if its bucket cannot be
used or one of these objects cannot be removed.
-/

namespace DatasetSync

namespace Document

/-- A place among the objects of the version: in its bucket, under its prefix. -/
def Owns (document : Document) (place : ObjectAddress) : Prop :=
  place.bucket = document.datasetNs ∧
    ∃ rest, place.key = Layout.versionPrefix document.datasetName document.spec.version ++ rest

/-- A place of the version that a tree of files does not know. -/
def Misses (document : Document) (tracked : FileTree) (place : ObjectAddress) : Prop :=
  document.Owns place ∧ place.key ∉ document.trackedKeys tracked

/-- A purge cannot come to a good end: its bucket cannot be used, or an object that it is to remove
cannot be removed. -/
def Bars (document : Document) (tracked : FileTree) (store : ObjectStore) : Prop :=
  store.RefusesBucket document.datasetNs ∨
    ∃ place, document.Misses tracked place ∧ store.Holds place ∧ store.Refuses place

/-- In the namespace of the dataset, a document owns just the places whose keys begin with the
prefix of its version, which is what the listing of a purge asks for. -/
theorem owns_iff {document : Document} {key : String} :
    document.Owns ⟨document.datasetNs, key⟩ ↔
      Text.startsWith (Layout.versionPrefix document.datasetName document.spec.version) key
        = true := by
  rw [Text.startsWith, Option.isSome_iff_exists]
  simp only [Text.stripPrefix?_eq_some_iff, Owns, true_and]

end Document

namespace ObjectStore

variable {store : ObjectStore} {address : ObjectAddress} {bucket : String}

/-- An object lies in a bucket that is there. The store keeps its objects within its buckets, so
that the bucket of an object is found wherever the object is. -/
theorem Holds.hasBucket (held : store.Holds address) : store.HasBucket address.bucket := by
  obtain ⟨keys, found, -⟩ := holds_iff.mp held
  simp [HasBucket, found]

/-- A bucket that is there and can be used can be listed, and the listing under a prefix names
exactly the keys with that prefix that the bucket holds. -/
theorem exists_listed (leading : String) (usable : ¬ store.RefusesBucket bucket)
    (there : store.HasBucket bucket) :
    ∃ listed, (store.answer (.listObjects bucket leading true)).1 = .ok listed ∧
      ∀ key, (∃ object ∈ listed, object.key = key) ↔
        store.Holds ⟨bucket, key⟩ ∧ Text.startsWith leading key = true := by
  obtain ⟨keys, found⟩ := Option.ne_none_iff_exists'.mp there
  have listed : ∃ listed, store.listObjects bucket leading true = .ok listed := by
    rw [listObjects, checkBucket, not_not.mp usable, keysOf, found]
    exact ⟨_, rfl⟩
  obtain ⟨listed, answered⟩ := listed
  exact ⟨listed, answered, fun key => Document.mem_listObjects_iff answered⟩

end ObjectStore

section Performs

variable {before after : Backends} {result : Except StorageError Unit}

/-- Objects are removed one after the other, until one cannot be removed: then its removal has
failed, and so has the whole. -/
theorem Performs.removed {bucket : String} {keys : List String}
    (performs : Performs (Policy.removeAll bucket keys) before result after)
    (there : before.objects.HasBucket bucket) :
    ((∃ error, result = .error error) ∧
        ∃ key ∈ keys, before.objects.Refuses ⟨bucket, key⟩ ∧
          before.objects.FailsRemoval after.objects ⟨bucket, key⟩) ∨
      (result = .ok () ∧ (∀ key ∈ keys, ¬ before.objects.Refuses ⟨bucket, key⟩) ∧
        before.objects.Account after.objects
          (fun place => place.bucket = bucket ∧ place.key ∈ keys) (fun _ => False)
          fun _ => False) := by
  induction keys generalizing before with
  | nil =>
    obtain ⟨rfl, now, rfl⟩ := performs_done_iff.mp performs
    exact .inr ⟨rfl, by simp, (ObjectStore.Account.refl before.objects).congr (by simp) (by simp)
      (by simp)⟩
  | cons key keys ih =>
    obtain ⟨now, later⟩ := performs_ask_iff.mp performs
    have answered : ((before.atTime now).answer (.object (.removeObject ⟨bucket, key⟩))).1 =
        (before.objects.answer (.removeObject ⟨bucket, key⟩)).1 := rfl
    have removal : before.objects.Account
        (before.objects.answer (.removeObject ⟨bucket, key⟩)).2 _ _ _ :=
      ObjectStore.account_removeObject there
    rw [answered] at later
    rcases ObjectStore.removeObject_answer ⟨bucket, key⟩ there with
      ⟨refused, error, same⟩ | ⟨allowed, same⟩
    · rw [same] at later
      obtain ⟨rfl, now', rfl⟩ := performs_done_iff.mp later
      exact .inl ⟨⟨error, rfl⟩, key, List.mem_cons_self, refused,
        (removal.fails _).mpr ⟨rfl, refused⟩⟩
    · rw [same] at later
      have there' := (removal.buckets bucket).mpr (.inl there)
      rcases ih later there' with ⟨failed, other, member, refused, fails⟩ | ⟨rfl, free, account⟩
      · exact .inl ⟨failed, other, List.mem_cons_of_mem _ member,
          (removal.loses.refuses _).mp refused, removal.failsRemoval fails⟩
      · refine .inr ⟨rfl, ?_, ?_⟩
        · intro other member refused
          rcases List.mem_cons.mp member with rfl | member
          · exact allowed refused
          · exact free other member ((removal.loses.refuses _).mpr refused)
        · refine (removal.trans account).congr (fun place _ => ?_) (fun place => ?_) (by simp)
          · simp only [allowed, not_false_eq_true, and_true, List.mem_cons, and_or_left]
            refine or_congr_left ⟨?_, ?_⟩
            · rintro rfl
              exact ⟨rfl, rfl⟩
            · rintro ⟨rfl, rfl⟩
              rfl
          · simp [allowed]

/-- The keys that a purge is to remove, given a listing: those that are listed and not known. -/
theorem mem_due_iff {document : Document} {tracked : FileTree} {store : ObjectStore}
    {listed : List ObjectInfo} {key : String}
    (keys : ∀ key, (∃ object ∈ listed, object.key = key) ↔
      store.Holds ⟨document.datasetNs, key⟩ ∧
        Text.startsWith (Layout.versionPrefix document.datasetName document.spec.version) key
          = true) :
    key ∈ (listed.map ObjectInfo.key).filter
        (fun key => !(document.trackedKeys tracked).contains key) ↔
      store.Holds ⟨document.datasetNs, key⟩ ∧ document.Misses tracked ⟨document.datasetNs, key⟩ := by
  rw [List.mem_filter, List.mem_map, keys, ← Document.owns_iff, Document.Misses, and_assoc]
  simp

/-- What is listed and not known is removed, in a bucket that is there and can be used. -/
theorem Performs.swept {document : Document} {tracked : FileTree} {listed : List ObjectInfo}
    {first : ObjectStore}
    (performs : Performs (Policy.removeAll document.datasetNs
      ((listed.map ObjectInfo.key).filter
        fun key => !(document.trackedKeys tracked).contains key)) before result after)
    (there : before.objects.HasBucket document.datasetNs)
    (usable : ¬ first.RefusesBucket document.datasetNs)
    (asked : first.Account before.objects (fun _ => False) (fun _ => False) fun _ => False)
    (keys : ∀ key, (∃ object ∈ listed, object.key = key) ↔
      first.Holds ⟨document.datasetNs, key⟩ ∧
        Text.startsWith (Layout.versionPrefix document.datasetName document.spec.version) key
          = true) :
    ((∃ error, result = .error error) ∧ document.Bars tracked first ∧
        ∃ place, document.Misses tracked place ∧ first.FailsRemoval after.objects place) ∨
      (result = .ok () ∧ ¬ document.Bars tracked first ∧
        first.Account after.objects (document.Misses tracked) (fun _ => False)
          fun _ => False) := by
  rcases performs.removed there with ⟨failed, key, member, refused, fails⟩ | ⟨rfl, free, account⟩
  · obtain ⟨held, missed⟩ := (mem_due_iff keys).mp member
    exact .inl ⟨failed, .inr ⟨_, missed, held, (asked.loses.refuses _).mp refused⟩, _, missed,
      asked.failsRemoval fails⟩
  · refine .inr ⟨rfl, ?_, (asked.trans account).congr ?_ (by simp) (by simp)⟩
    · rintro (refused | ⟨⟨bucket, key⟩, missed, held, refused⟩)
      · exact usable refused
      · obtain rfl : bucket = document.datasetNs := missed.1.1
        exact free key ((mem_due_iff keys).mpr ⟨held, missed⟩)
          ((asked.loses.refuses _).mpr refused)
    · rintro ⟨bucket, key⟩ held
      rw [false_or]
      constructor
      · rintro ⟨rfl, member⟩
        exact ((mem_due_iff keys).mp member).2
      · intro missed
        obtain rfl : bucket = document.datasetNs := missed.1.1
        exact ⟨rfl, (mem_due_iff keys).mpr ⟨held, missed⟩⟩

/-- A purge fails where it is barred, and then its bucket is refused or the removal of an object
that is not known has failed; otherwise it makes go exactly the objects of the version that are not
known. -/
theorem Performs.purged {document : Document} {tracked : FileTree}
    (performs : Performs (Policy.purgeUntracked document tracked) before result after) :
    ((∃ error, result = .error error) ∧ document.Bars tracked before.objects ∧
        (before.objects.RefusesBucket document.datasetNs ∨
          ∃ place, document.Misses tracked place ∧
            before.objects.FailsRemoval after.objects place)) ∨
      (result = .ok () ∧ ¬ document.Bars tracked before.objects ∧
        before.objects.Account after.objects (document.Misses tracked) (fun _ => False)
          fun _ => False) := by
  let store := before.objects
  let checked := (store.answer (.bucketExists document.datasetNs)).2
  have checking : store.Account checked _ _ _ := ObjectStore.account_of_same rfl (by simp)
  obtain ⟨now, later⟩ := performs_ask_iff.mp performs
  have answered : ((before.atTime now).answer
      (.object (.bucketExists document.datasetNs))).1 =
        (store.answer (.bucketExists document.datasetNs)).1 := rfl
  rw [answered] at later
  rcases store.bucketExists_cases document.datasetNs with ⟨refused, error, same⟩ |
    ⟨usable, ⟨there, same⟩ | ⟨absent, same⟩⟩ <;> rw [same] at later
  · obtain ⟨rfl, now', rfl⟩ := performs_done_iff.mp later
    exact .inl ⟨⟨error, rfl⟩, .inl refused, .inl refused⟩
  · let leading := Layout.versionPrefix document.datasetName document.spec.version
    have there' : checked.HasBucket document.datasetNs := (checking.buckets _).mpr (.inl there)
    obtain ⟨listed, answered', keys⟩ := ObjectStore.exists_listed leading
      (fun refused => usable (checking.refusesBucket.mp refused)) there'
    have listing : checked.Account
        (checked.answer (.listObjects document.datasetNs leading true)).2 _ _ _ :=
      ObjectStore.account_of_same rfl (by simp)
    have asked : store.Account (checked.answer (.listObjects document.datasetNs leading true)).2
        (fun _ => False) (fun _ => False) fun _ => False := by
      simpa using checking.trans listing
    obtain ⟨now', last⟩ := performs_ask_iff.mp later
    have answered'' : (((((before.atTime now).answer
        (.object (.bucketExists document.datasetNs))).2.atTime now').answer
          (.object (.listObjects document.datasetNs leading true))).1) = .ok listed := answered'
    rw [answered''] at last
    exact (Performs.swept last ((listing.buckets _).mpr (.inl there')) usable asked keys).imp_left
      fun ⟨failed, bars, fails⟩ => ⟨failed, bars, .inr fails⟩
  · obtain ⟨rfl, now', rfl⟩ := performs_done_iff.mp later
    have nothing : ∀ place, document.Misses tracked place → ¬ store.Holds place :=
      fun place missed held => absent (missed.1.1 ▸ held.hasBucket)
    refine .inr ⟨rfl, ?_, checking.congr ?_ (by simp) (by simp)⟩
    · rintro (refused | ⟨place, missed, held, -⟩)
      · exact usable refused
      · exact nothing place missed held
    · exact fun place held => iff_of_false not_false fun missed => nothing place missed held

end Performs

end DatasetSync
