import DatasetSync.Proofs.Store.Objects

/-!
# An account of the calls on an object store

Between two states of a store lies a list of calls, and the log of the store tells which. An
account of these calls says what they have done: which objects are gone, which removals have
ended with an error, and which buckets were added. Accounts of calls in sequence are joined into
one. No call takes a bucket away, and none changes what the store refuses.

An account is for calls that copy nothing.
-/

namespace DatasetSync

namespace ObjectStore

variable {store before middle after : ObjectStore} {call : ObjectCall} {calls : List ObjectCall}
  {address : ObjectAddress} {bucket : String}

/-- A bucket is there. -/
def HasBucket (store : ObjectStore) (bucket : String) : Prop := store.buckets.get? bucket ≠ none

/-- Every call on a bucket is answered with an error. -/
def RefusesBucket (store : ObjectStore) (bucket : String) : Prop :=
  store.failingBuckets.get? bucket ≠ none

/-- The store after a list of calls, oldest first. -/
def afterCalls (store : ObjectStore) : List ObjectCall → ObjectStore
  | [] => store
  | call :: calls => (store.answer call).2.afterCalls calls

/-- The address whose removal was called for and ended with an error. -/
def failedRemoval? : (call : ObjectCall) → call.Answer → Option ObjectAddress
  | .removeObject address, .error _ => some address
  | _, _ => none

/-- The addresses of all removals among a list of calls that end with an error. -/
def failedRemovals (store : ObjectStore) : List ObjectCall → List ObjectAddress
  | [] => []
  | call :: calls =>
    (failedRemoval? call (store.answer call).1).toList ++
      (store.answer call).2.failedRemovals calls

/-- On the way from one state of a store to another, the removal of an address was called for
and ended with an error. -/
def FailsRemoval (before after : ObjectStore) (address : ObjectAddress) : Prop :=
  ∃ calls, after = before.afterCalls calls ∧ address ∈ before.failedRemovals calls

/-- What a call changes: it is logged, and the buckets may change. What the store refuses stays as
it is. -/
theorem answer_snd (store : ObjectStore) (call : ObjectCall) :
    ∃ buckets, (store.answer call).2 = { store with buckets, log := store.log ++ [call] } := by
  have settled : ∀ (changed : Except StorageError ObjectStore) (logged : ObjectStore),
      (∀ next, changed = .ok next → ∃ buckets, next = { logged with buckets }) →
      ∃ buckets, (logged.settle changed).2 = { logged with buckets } := by
    intro changed logged ok
    cases changed with
    | error error => exact ⟨logged.buckets, rfl⟩
    | ok next => exact ok next rfl
  cases call with
  | bucketExists | listObjects => exact ⟨store.buckets, rfl⟩
  | makeBucket bucket =>
    refine settled _ { store with log := _ } fun next made => ?_
    obtain ⟨-, -, same⟩ := bind_eq_ok.mp made
    cases same
    exact ⟨_, rfl⟩
  | copyObject destination source =>
    refine settled _ { store with log := _ } fun next copied => ?_
    obtain ⟨-, keys, -, rfl⟩ := copyObject_ok copied
    exact ⟨_, rfl⟩
  | removeObject address =>
    refine settled _ { store with log := _ } fun next removed => ?_
    obtain ⟨-, -, removed⟩ := bind_eq_ok.mp removed
    obtain ⟨-, -, removed⟩ := bind_eq_ok.mp removed
    obtain ⟨keys, -, same⟩ := bind_eq_ok.mp removed
    cases same
    exact ⟨_, rfl⟩

/-- Every call is logged once, whether it is answered well or badly. -/
@[simp] theorem log_answer (store : ObjectStore) (call : ObjectCall) :
    (store.answer call).2.log = store.log ++ [call] := by
  obtain ⟨buckets, same⟩ := store.answer_snd call
  rw [same]

/-- The last entry of the log is the call that was just answered. -/
theorem eq_of_log {logged : ObjectCall} (same : (store.answer call).2.log = store.log ++ [logged]) :
    call = logged := by
  rw [log_answer] at same
  exact List.singleton_inj.mp (List.append_cancel_left same)

/-- A store tells by its log which call it has answered. So the calls between two states are
determined by these. -/
theorem eq_of_answer {made : ObjectCall} {answer : made.Answer} {after : ObjectStore}
    (answered : store.answer made = (answer, after)) (same : (store.answer call).2 = after) :
    made = call := by
  have logged : after.log = store.log ++ [made] := by rw [← log_answer, answered]
  exact (eq_of_log (same ▸ logged)).symm

/-- No call changes whether a bucket is refused: failures are part of the surroundings, and no call
sets them. -/
@[simp] theorem refusesBucket_answer :
    (store.answer call).2.RefusesBucket bucket ↔ store.RefusesBucket bucket := by
  obtain ⟨buckets, same⟩ := store.answer_snd call
  rw [same]
  exact .rfl

/-- The log grows by the calls, in their order, behind what it held before. -/
@[simp] theorem log_afterCalls (store : ObjectStore) (calls : List ObjectCall) :
    (store.afterCalls calls).log = store.log ++ calls := by
  induction calls generalizing store with
  | nil => exact (List.append_nil _).symm
  | cons call calls ih => rw [afterCalls, ih, log_answer, List.append_assoc, List.singleton_append]

/-- Whether a bucket is refused is the same after any number of calls. -/
@[simp] theorem refusesBucket_afterCalls :
    (store.afterCalls calls).RefusesBucket bucket ↔ store.RefusesBucket bucket := by
  induction calls generalizing store with
  | nil => exact .rfl
  | cons call calls ih => exact ih.trans refusesBucket_answer

/-- Calls in sequence lead on from where the first ones have led. -/
theorem afterCalls_append (store : ObjectStore) (first second : List ObjectCall) :
    store.afterCalls (first ++ second) = (store.afterCalls first).afterCalls second := by
  induction first generalizing store with
  | nil => rfl
  | cons call first ih => exact ih _

/-- The removals that fail among calls in sequence are those among the first calls, and those among
the later calls in the store that the first ones have left. -/
theorem failedRemovals_append (store : ObjectStore) (first second : List ObjectCall) :
    store.failedRemovals (first ++ second) =
      store.failedRemovals first ++ (store.afterCalls first).failedRemovals second := by
  induction first generalizing store with
  | nil => rfl
  | cons call first ih =>
    rw [List.cons_append, failedRemovals, ih, failedRemovals, List.append_assoc]
    rfl

/-- How a store answers whether a bucket is there: with an error where it refuses the bucket, and
with the truth otherwise. -/
theorem bucketExists_cases (store : ObjectStore) (bucket : String) :
    (store.RefusesBucket bucket ∧
        ∃ error, (store.answer (.bucketExists bucket)).1 = .error error) ∨
      ¬ store.RefusesBucket bucket ∧
        ((store.HasBucket bucket ∧ (store.answer (.bucketExists bucket)).1 = .ok true) ∨
          ¬ store.HasBucket bucket ∧ (store.answer (.bucketExists bucket)).1 = .ok false) := by
  have answered : (store.answer (.bucketExists bucket)).1 = store.bucketExists bucket := rfl
  rw [answered, bucketExists, checkBucket]
  cases refused : store.failingBuckets.get? bucket with
  | some message => exact .inl ⟨by simp [RefusesBucket, refused], _, rfl⟩
  | none =>
    refine .inr ⟨not_not_intro refused, ?_⟩
    have contained : store.buckets.contains bucket = (store.buckets.get? bucket).isSome := rfl
    dsimp only [bind, Except.bind]
    rw [contained]
    cases found : store.buckets.get? bucket with
    | none => exact .inr ⟨not_not_intro found, rfl⟩
    | some keys => exact .inl ⟨by simp [HasBucket, found], rfl⟩

/-- How a store answers that a bucket was made: with an error where it refuses the bucket, and well
otherwise, also where the bucket was there. -/
theorem makeBucket_cases (store : ObjectStore) (bucket : String) :
    (store.RefusesBucket bucket ∧ ∃ error, (store.answer (.makeBucket bucket)).1 = .error error) ∨
      ¬ store.RefusesBucket bucket ∧ (store.answer (.makeBucket bucket)).1 = .ok () := by
  let logged : ObjectStore := { store with log := store.log ++ [.makeBucket bucket] }
  have answered : (store.answer (.makeBucket bucket)).1 =
      (logged.settle (logged.makeBucket bucket)).1 := rfl
  have same : logged.failingBuckets = store.failingBuckets := rfl
  rw [answered, makeBucket, checkBucket, same]
  cases refused : store.failingBuckets.get? bucket with
  | some message => exact .inl ⟨by simp [RefusesBucket, refused], _, rfl⟩
  | none => exact .inr ⟨not_not_intro refused, rfl⟩

/-- How the removal of an object ends in a bucket that is there: with an error exactly if it is
refused. An object that is missing is removed without complaint. -/
theorem removeObject_answer (address : ObjectAddress) (there : store.HasBucket address.bucket) :
    (store.Refuses address ∧ ∃ error, (store.answer (.removeObject address)).1 = .error error) ∨
      ¬ store.Refuses address ∧ (store.answer (.removeObject address)).1 = .ok () := by
  let logged : ObjectStore := { store with log := store.log ++ [.removeObject address] }
  have answered : (store.answer (.removeObject address)).1 =
      (logged.settle (logged.removeObject address)).1 := rfl
  rw [answered]
  rcases logged.removeObject_cases address with
    ⟨refused, error, failed⟩ | ⟨allowed, ⟨absent, -⟩ | ⟨keys, -, removed⟩⟩
  · exact .inl ⟨refused, error, by rw [failed]; rfl⟩
  · exact absurd absent there
  · exact .inr ⟨allowed, by rw [removed]; rfl⟩

/-- After a removal that ended well its object is gone, and nothing else is; after one that failed,
all objects are where they were. -/
theorem holds_removeObject (store : ObjectStore) (address other : ObjectAddress) :
    (store.answer (.removeObject address)).2.Holds other ↔
      store.Holds other ∧
        ¬ ((store.answer (.removeObject address)).1 = .ok () ∧ other = address) := by
  rw [(store.loses_removeObject address).holds other]
  refine and_congr_right fun held => not_congr ?_
  by_cases same : other = address
  · subst same
    have there : store.HasBucket other.bucket := by
      obtain ⟨keys, found, -⟩ := holds_iff.mp held
      simp [HasBucket, found]
    rcases store.removeObject_answer other there with ⟨refused, error, failed⟩ | ⟨allowed, ok⟩
    · simp [refused, failed]
    · simp [allowed, ok]
  · simp [same]

/-- The log tells which calls lie between two states: every call is logged, and nothing else is. -/
theorem afterCalls_inj {first second : List ObjectCall}
    (same : store.afterCalls first = store.afterCalls second) : first = second := by
  have logs := congrArg log same
  rwa [log_afterCalls, log_afterCalls, List.append_cancel_left_eq] at logs

/-- Which removals have failed is read off the calls, since the log leaves no doubt about them. -/
theorem failsRemoval_afterCalls :
    store.FailsRemoval (store.afterCalls calls) address ↔
      address ∈ store.failedRemovals calls := by
  constructor
  · rintro ⟨others, same, failed⟩
    rwa [afterCalls_inj same]
  · intro failed
    exact ⟨calls, rfl, failed⟩

/-- From one state of a store to another only calls were answered that have made objects go, that
have failed to remove objects, and that have added buckets. -/
structure Account (before after : ObjectStore) (gone failed : ObjectAddress → Prop)
    (added : String → Prop) : Prop where
  called : ∃ calls, after = before.afterCalls calls
  loses : Loses before after gone
  fails : ∀ address, before.FailsRemoval after address ↔ failed address
  buckets : ∀ bucket, after.HasBucket bucket ↔ before.HasBucket bucket ∨ added bucket

section Account

variable {gone gone' failed failed' : ObjectAddress → Prop} {added added' : String → Prop}

/-- While nothing is called, nothing is done: nothing is gone, no removal has failed, and no bucket
was added. -/
theorem Account.refl (store : ObjectStore) :
    store.Account store (fun _ => False) (fun _ => False) fun _ => False where
  called := ⟨[], rfl⟩
  loses := .logged store store.log
  fails address := (@failsRemoval_afterCalls store [] address).trans (by simp [failedRemovals])
  buckets bucket := by simp

/-- Two accounts in sequence are one. What is gone, has failed or was added is so by the first part
or by the second one. -/
theorem Account.trans (sooner : before.Account middle gone failed added)
    (later : middle.Account after gone' failed' added') :
    before.Account after (fun place => gone place ∨ gone' place)
      (fun place => failed place ∨ failed' place) fun bucket => added bucket ∨ added' bucket := by
  obtain ⟨first, rfl⟩ := sooner.called
  obtain ⟨second, rfl⟩ := later.called
  refine ⟨⟨first ++ second, (afterCalls_append _ _ _).symm⟩, sooner.loses.trans later.loses,
    fun address => ?_, fun bucket => ?_⟩
  · rw [← sooner.fails, ← later.fails, failsRemoval_afterCalls, failsRemoval_afterCalls,
      ← afterCalls_append, failsRemoval_afterCalls, failedRemovals_append, List.mem_append]
  · rw [later.buckets, sooner.buckets, or_assoc]

/-- A removal that fails on the rest of a way fails on the whole way, whatever was accounted for
before: the calls of the rest come after those of the first part. -/
theorem Account.failsRemoval (sooner : before.Account middle gone failed added)
    (later : middle.FailsRemoval after address) : before.FailsRemoval after address := by
  obtain ⟨first, rfl⟩ := sooner.called
  obtain ⟨second, rfl, fails⟩ := later
  rw [← afterCalls_append, failsRemoval_afterCalls, failedRemovals_append]
  exact List.mem_append_right _ fails

/-- An account may be given in other words. What it says about objects that were not there does
not matter. -/
theorem Account.congr (account : before.Account after gone failed added)
    (sameGone : ∀ place, before.Holds place → (gone place ↔ gone' place))
    (sameFailed : ∀ place, failed place ↔ failed' place)
    (sameAdded : ∀ bucket, before.HasBucket bucket ∨ added bucket ↔
      before.HasBucket bucket ∨ added' bucket) :
    before.Account after gone' failed' added' where
  called := account.called
  loses := ⟨account.loses.refuses, fun place => by
    rw [account.loses.holds, and_congr_right_iff]
    intro held
    rw [sameGone place held]⟩
  fails place := (account.fails place).trans (sameFailed place)
  buckets bucket := (account.buckets bucket).trans (sameAdded bucket)

/-- No call changes which buckets are refused. -/
theorem Account.refusesBucket (account : before.Account after gone failed added) :
    after.RefusesBucket bucket ↔ before.RefusesBucket bucket := by
  obtain ⟨calls, rfl⟩ := account.called
  exact refusesBucket_afterCalls

/-- The account of a single call, put together of what it has taken away, whether it was a removal
that failed, and what it has added. -/
theorem account_answer (loses : Loses store (store.answer call).2 gone)
    (fails : ∀ address, failedRemoval? call (store.answer call).1 = some address ↔ failed address)
    (buckets : ∀ bucket, (store.answer call).2.HasBucket bucket ↔
      store.HasBucket bucket ∨ added bucket) :
    store.Account (store.answer call).2 gone failed added where
  called := ⟨[call], rfl⟩
  loses := loses
  fails address := by
    have single : store.FailsRemoval (store.answer call).2 address ↔
        address ∈ store.failedRemovals [call] := @failsRemoval_afterCalls store [call] address
    rw [single, ← fails]
    simp [failedRemovals, eq_comm]
  buckets := buckets

/-- A call that only asks does nothing but being logged: its account has no object gone, none added
and no failed removal. -/
theorem account_of_same (same : (store.answer call).2 = { store with log := store.log ++ [call] })
    (asks : ∀ address, call ≠ .removeObject address) :
    store.Account (store.answer call).2 (fun _ => False) (fun _ => False) fun _ => False := by
  refine account_answer ?_ (fun address => ?_) fun bucket => ?_
  · rw [same]
    exact .logged store _
  · cases call with
    | removeObject address => exact absurd rfl (asks address)
    | _ => simp [failedRemoval?]
  · rw [same, or_false]
    exact .rfl

/-- A bucket is added where it is missing, unless it is refused. A bucket that is there keeps its
keys. -/
theorem account_makeBucket (store : ObjectStore) (bucket : String) :
    store.Account (store.answer (.makeBucket bucket)).2 (fun _ => False) (fun _ => False)
      fun other => other = bucket ∧ ¬ store.RefusesBucket bucket := by
  refine account_answer (store.loses_makeBucket bucket) (by simp [failedRemoval?])
    fun other => ?_
  let logged : ObjectStore := { store with log := store.log ++ [.makeBucket bucket] }
  have answered : (store.answer (.makeBucket bucket)).2 =
      (logged.settle (logged.makeBucket bucket)).2 := rfl
  rw [answered]
  cases refused : logged.failingBuckets.get? bucket with
  | some message =>
    have refuses : store.RefusesBucket bucket :=
      fun usable => Option.some_ne_none message (refused.symm.trans usable)
    have failed : logged.makeBucket bucket =
        .error (.request .createBucket message) := by
      rw [makeBucket, checkBucket, refused]
      rfl
    rw [failed]
    exact ⟨.inl, fun either => either.elim id fun added => absurd refuses added.2⟩
  | none =>
    have usable : ¬ store.RefusesBucket bucket := not_not_intro refused
    have made : logged.makeBucket bucket = .ok (logged.putBucket bucket) := by
      rw [makeBucket, checkBucket, refused]
      rfl
    have lookup : (logged.putBucket bucket).buckets.get? other =
        if bucket = other then some ((store.buckets.get? bucket).getD .empty)
        else store.buckets.get? other := OrderedMap.get?_insert store.buckets bucket _ other
    rw [made, settle, HasBucket, lookup]
    by_cases same : bucket = other
    · simp [same, same ▸ usable]
    · simp [same, Ne.symm same, HasBucket]

/-- A removal in a bucket that is there makes its object go, or it is refused and fails. -/
theorem account_removeObject (there : store.HasBucket address.bucket) :
    store.Account (store.answer (.removeObject address)).2
      (fun place => place = address ∧ ¬ store.Refuses address)
      (fun place => place = address ∧ store.Refuses address) fun _ => False := by
  let logged : ObjectStore := { store with log := store.log ++ [.removeObject address] }
  have answered : store.answer (.removeObject address) =
      logged.settle (logged.removeObject address) := rfl
  refine account_answer (store.loses_removeObject address) (fun place => ?_) fun bucket => ?_
  all_goals
    rw [answered]
    rcases logged.removeObject_cases address with
      ⟨refused, error, failed⟩ | ⟨allowed, ⟨absent, -⟩ | ⟨keys, found, removed⟩⟩
  · have refused' : store.Refuses address := refused
    simp [failed, settle, failedRemoval?, refused', eq_comm]
  · exact absurd absent there
  · have allowed' : ¬ store.Refuses address := allowed
    simp [removed, settle, failedRemoval?, allowed']
  · rw [failed, or_false]
    exact .rfl
  · exact absurd absent there
  · rw [removed, or_false]
    unfold HasBucket settle
    dsimp only
    rw [OrderedMap.get?_insert]
    split
    · rename_i same
      subst same
      exact iff_of_true (by simp) there
    · exact .rfl

end Account

end ObjectStore

end DatasetSync
