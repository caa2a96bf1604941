import DatasetSync.Proofs.Program.Trail

/-!
# Objects that are copied and removed

A call on an object store leaves all objects where they are, copies one, or removes one. A
removal takes exactly its object away, unless the store refuses it; then it takes nothing
away. A copy that ends well puts exactly its object there, and one that fails changes nothing.
What a store refuses does not change by any call.
-/

namespace DatasetSync

namespace ObjectStore

/-- The object of an address is there. -/
def Holds (store : ObjectStore) (address : ObjectAddress) : Prop :=
  store.holds address.bucket address.key = true

/-- The store does not remove the object of an address: it cannot use the bucket, or the key. -/
def Refuses (store : ObjectStore) (address : ObjectAddress) : Prop :=
  store.failingBuckets.get? address.bucket ≠ none ∨ store.failingKeys.get? address.key ≠ none

/-- An object is there if its bucket is there and has its key. -/
theorem holds_iff {store : ObjectStore} {address : ObjectAddress} :
    store.Holds address ↔
      ∃ keys, store.buckets.get? address.bucket = some keys ∧ address.key ∈ keys := by
  unfold Holds holds
  cases store.buckets.get? address.bucket with
  | none => simp
  | some keys => simp

/-- From one state of a store to another, the objects of given places were taken away, no
object was added, and the same removals are refused. -/
structure Loses (before after : ObjectStore) (gone : ObjectAddress → Prop) : Prop where
  refuses : ∀ address, after.Refuses address ↔ before.Refuses address
  holds : ∀ address, after.Holds address ↔ before.Holds address ∧ ¬ gone address

/-- A store loses nothing as long as it stays as it is; its log does not matter. -/
theorem Loses.logged (store : ObjectStore) (log : List ObjectCall) :
    Loses store { store with log } fun _ => False where
  refuses address := .rfl
  holds address := by
    rw [not_false_eq_true, and_true]
    exact .rfl

/-- Two losses in turn are one: gone is what the first or the second one has taken. -/
theorem Loses.trans {first second third : ObjectStore}
    {gone gone' : ObjectAddress → Prop} (sooner : Loses first second gone)
    (later : Loses second third gone') :
    Loses first third fun place => gone place ∨ gone' place where
  refuses place := (later.refuses place).trans (sooner.refuses place)
  holds place := by
    rw [later.holds place, sooner.holds place, not_or, and_assoc]

/-- A new bucket holds nothing, and one that was there keeps what it held. -/
theorem holds_putBucket {store : ObjectStore} {bucket : String} {address : ObjectAddress} :
    (store.putBucket bucket).Holds address ↔ store.Holds address := by
  have lookup : (store.putBucket bucket).buckets.get? address.bucket =
      if bucket = address.bucket then some ((store.buckets.get? bucket).getD .empty)
      else store.buckets.get? address.bucket :=
    OrderedMap.get?_insert store.buckets bucket _ address.bucket
  rw [holds_iff, holds_iff, lookup]
  by_cases same : bucket = address.bucket
  · rw [if_pos same, same]
    cases former : store.buckets.get? address.bucket with
    | none =>
      have nothing : address.key ∉ (OrderedSet.empty : OrderedSet String) := List.not_mem_nil
      simp [nothing]
    | some keys => simp
  · rw [if_neg same]

/-- Making a bucket loses nothing, whether it is refused or not. -/
theorem loses_makeBucket (store : ObjectStore) (bucket : String) :
    Loses store (store.answer (.makeBucket bucket)).2 fun _ => False := by
  let logged : ObjectStore := { store with log := store.log ++ [.makeBucket bucket] }
  have answered : (store.answer (.makeBucket bucket)).2 =
      (logged.settle (logged.makeBucket bucket)).2 := rfl
  rw [answered]
  unfold makeBucket checkBucket
  cases logged.failingBuckets.get? bucket with
  | some message => exact .logged store logged.log
  | none =>
    refine ⟨fun address => .rfl, fun address => ?_⟩
    have present : (logged.putBucket bucket).Holds address ↔ store.Holds address :=
      holds_putBucket
    rw [not_false_eq_true, and_true]
    exact present

/-- How a removal ends: it is refused, it finds no bucket, or it erases the key. -/
theorem removeObject_cases (store : ObjectStore) (address : ObjectAddress) :
    (store.Refuses address ∧ ∃ error, store.removeObject address = .error error) ∨
      ¬ store.Refuses address ∧
        ((store.buckets.get? address.bucket = none ∧
            ∃ error, store.removeObject address = .error error) ∨
          ∃ keys, store.buckets.get? address.bucket = some keys ∧
            store.removeObject address =
              .ok { store with
                buckets := store.buckets.insert address.bucket (keys.erase address.key) }) := by
  unfold removeObject checkBucket checkKey keysOf
  cases bucket : store.failingBuckets.get? address.bucket with
  | some message =>
    have refused : store.Refuses address := .inl (by simp [bucket])
    exact .inl ⟨refused, _, rfl⟩
  | none =>
    cases key : store.failingKeys.get? address.key with
    | some message =>
      have refused : store.Refuses address := .inr (by simp [key])
      exact .inl ⟨refused, _, rfl⟩
    | none =>
      have allowed : ¬ store.Refuses address := by simp [Refuses, bucket, key]
      cases found : store.buckets.get? address.bucket with
      | none => exact .inr ⟨allowed, .inl ⟨rfl, _, rfl⟩⟩
      | some keys => exact .inr ⟨allowed, .inr ⟨keys, rfl, rfl⟩⟩

/-- Without a key, a bucket holds what it held but for that key, and other buckets hold what they
held. -/
theorem holds_erase {store : ObjectStore} {address other : ObjectAddress}
    {keys : OrderedSet String} (found : store.buckets.get? address.bucket = some keys) :
    ({ store with buckets := store.buckets.insert address.bucket (keys.erase address.key) } :
      ObjectStore).Holds other ↔ store.Holds other ∧ other ≠ address := by
  rw [holds_iff, holds_iff]
  dsimp only
  rw [OrderedMap.get?_insert]
  by_cases same : address.bucket = other.bucket
  · have distinct : other ≠ address ↔ other.key ≠ address.key := by
      constructor
      · intro different sameKey
        apply different
        cases other
        cases address
        cases same
        cases sameKey
        rfl
      · rintro different rfl
        exact different rfl
    rw [if_pos same, distinct, ← same, found]
    simp [and_comm]
  · have distinct : other ≠ address := by
      rintro rfl
      exact same rfl
    rw [if_neg same]
    simp [distinct]

/-- A removal takes exactly its object away, unless it is refused; then it takes nothing away. -/
theorem loses_removeObject (store : ObjectStore) (address : ObjectAddress) :
    Loses store (store.answer (.removeObject address)).2 fun other =>
      other = address ∧ ¬ store.Refuses address := by
  let logged : ObjectStore := { store with log := store.log ++ [.removeObject address] }
  have answered : (store.answer (.removeObject address)).2 =
      (logged.settle (logged.removeObject address)).2 := rfl
  rw [answered]
  have sameRefusals : logged.Refuses address ↔ store.Refuses address := .rfl
  have sameObjects : ∀ other, logged.Holds other ↔ store.Holds other := fun other => .rfl
  rcases logged.removeObject_cases address with
    ⟨refused, error, failed⟩ | ⟨allowed, ⟨absent, error, failed⟩ | ⟨keys, found, removed⟩⟩
  · rw [failed]
    refine ⟨fun other => .rfl, fun other => ?_⟩
    have notGone : ¬ (other = address ∧ ¬ store.Refuses address) := fun gone => gone.2 refused
    simp only [settle, sameObjects, notGone, not_false_eq_true, and_true]
  · rw [failed]
    refine ⟨fun other => .rfl, fun other => ?_⟩
    constructor
    · intro present
      refine ⟨present, ?_⟩
      rintro ⟨rfl, -⟩
      obtain ⟨keys, found, -⟩ := holds_iff.mp present
      have somewhere : logged.buckets.get? other.bucket = some keys := found
      rw [absent] at somewhere
      cases somewhere
    · intro former
      exact former.1
  · rw [removed]
    refine ⟨fun other => .rfl, fun other => ?_⟩
    have erased := @holds_erase logged address other keys found
    simp only [settle, erased, sameObjects, sameRefusals.symm, allowed, not_false_eq_true, and_true,
      ne_eq]

/-- Two steps in sequence end well if both do, the second one with what the first one has given. -/
theorem bind_eq_ok {ε α β : Type} {first : Except ε α} {next : α → Except ε β} {value : β} :
    (first >>= next) = .ok value ↔ ∃ middle, first = .ok middle ∧ next middle = .ok value := by
  cases first <;> simp [bind, Except.bind]

/-- A copy that ends well has found its source in the store as it was before, and puts a key into a
bucket that is there. It makes no bucket and changes no other one. -/
theorem copyObject_ok {store after : ObjectStore} {destination source : ObjectAddress}
    (copied : store.copyObject destination source = .ok after) :
    store.Holds source ∧ ∃ keys, store.buckets.get? destination.bucket = some keys ∧
      after = { store with
        buckets := store.buckets.insert destination.bucket (keys.insert destination.key) } := by
  unfold copyObject at copied
  obtain ⟨-, -, copied⟩ := bind_eq_ok.mp copied
  obtain ⟨-, -, copied⟩ := bind_eq_ok.mp copied
  obtain ⟨-, -, copied⟩ := bind_eq_ok.mp copied
  obtain ⟨-, -, copied⟩ := bind_eq_ok.mp copied
  split at copied
  · rename_i held
    obtain ⟨keys, found, same⟩ := bind_eq_ok.mp copied
    cases same
    refine ⟨held, keys, ?_, rfl⟩
    unfold keysOf at found
    split at found
    · rename_i present
      cases found
      exact present
    · cases found
  · cases copied

/-- With one more key, a bucket holds what it held and that key, and other buckets hold what they
held. -/
theorem holds_insert {store : ObjectStore} {address other : ObjectAddress}
    {keys : OrderedSet String} (found : store.buckets.get? address.bucket = some keys) :
    ({ store with buckets := store.buckets.insert address.bucket (keys.insert address.key) } :
      ObjectStore).Holds other ↔ store.Holds other ∨ other = address := by
  rw [holds_iff, holds_iff]
  dsimp only
  rw [OrderedMap.get?_insert]
  by_cases same : address.bucket = other.bucket
  · have equal : other = address ↔ other.key = address.key := by
      cases other
      cases address
      cases same
      simp
    rw [if_pos same, equal, ← same, found]
    simp [or_comm]
  · have distinct : other ≠ address := by
      rintro rfl
      exact same rfl
    rw [if_neg same]
    simp [distinct]

/-- After a copy the store holds what it held, and the copy if that ended well. -/
theorem holds_copyObject (store : ObjectStore) (destination source : ObjectAddress)
    (other : ObjectAddress) :
    (store.answer (.copyObject destination source)).2.Holds other ↔
      store.Holds other ∨
        ((store.answer (.copyObject destination source)).1 = .ok () ∧ other = destination) := by
  let logged : ObjectStore := { store with log := store.log ++ [.copyObject destination source] }
  have answered : store.answer (.copyObject destination source) =
      logged.settle (logged.copyObject destination source) := rfl
  have sameObjects : logged.Holds other ↔ store.Holds other := .rfl
  rw [answered]
  cases copied : logged.copyObject destination source with
  | error error => simp [settle, sameObjects]
  | ok after =>
    obtain ⟨-, keys, found, rfl⟩ := copyObject_ok copied
    simp only [settle, true_and]
    rw [holds_insert found, sameObjects]

end ObjectStore

/-- A call that neither copies nor removes an object loses nothing. It may make a bucket, and it may
be refused. -/
theorem Call.SparesObjects.loses {call : Call} (spares : call.SparesObjects)
    (backends : Backends) :
    ObjectStore.Loses backends.objects (backends.answer call).2.objects fun _ => False := by
  cases call with
  | document made => exact .logged backends.objects backends.objects.log
  | resolve source fallback => exact .logged backends.objects backends.objects.log
  | clock => exact .logged backends.objects backends.objects.log
  | object made =>
    cases made with
    | bucketExists bucket => exact .logged backends.objects _
    | listObjects bucket leading recursive => exact .logged backends.objects _
    | makeBucket bucket => exact ObjectStore.loses_makeBucket backends.objects bucket
    | copyObject destination source => cases spares
    | removeObject address => cases spares

end DatasetSync
