import Mathlib.Data.List.Induction
import Mathlib.Data.List.Nodup
import DatasetSync.Resource.Document

/-!
# Conditions by type

A list of conditions is kept as if it were a map by type. A condition enters a list in one of two
ways (`Enters`): behind all entries if none of them has its type, else in the place of the first
entry that has. The laws below are read off these two ways.

An entry that says the same is left alone, so its time stays that of the call that last changed
what it says. If no type is listed twice, a condition has one place in the list that no later
call takes from it (`Keeps`).

Types are texts like any other; no law depends on which types there are, nor on what their
conditions say.
-/

namespace DatasetSync

namespace Condition

variable {condition existing entry other : Condition}
variable {conditions before after : List Condition} {changed : Bool}

/-! ## What conditions say -/

/-- Two conditions say the same if they agree on type, status, reason and message. Their times do
not count. -/
theorem equivalent_iff {first second : Condition} : first.equivalent second = true ↔
    first.type = second.type ∧ first.status = second.status ∧ first.reason = second.reason ∧
      first.message = second.message := by
  simp [equivalent, and_assoc]

/-- A condition says the same as itself. -/
@[simp] theorem equivalent_self (condition : Condition) :
    condition.equivalent condition = true := by
  simp [equivalent]

/-- Reports on readiness that say the same may be made at any time. -/
@[simp] theorem equivalent_ready (now later : Timestamp) (status : Truth)
    (reason message : String) :
    (ready now status reason message).equivalent (ready later status reason message) = true := by
  simp [equivalent, ready]

/-- Saying the same is transitive. -/
theorem equivalent_trans {first second third : Condition}
    (same : first.equivalent second = true) (again : second.equivalent third = true) :
    first.equivalent third = true := by
  obtain ⟨type, status, reason, message⟩ := equivalent_iff.mp same
  obtain ⟨type', status', reason', message'⟩ := equivalent_iff.mp again
  exact equivalent_iff.mpr ⟨type.trans type', status.trans status', reason.trans reason',
    message.trans message'⟩

/-- Reports that say the same hold together, as holding is read off the status. -/
theorem holds_of_equivalent {first second : Condition} (same : first.equivalent second = true) :
    first.holds = second.holds := by
  obtain ⟨-, status, -, -⟩ := equivalent_iff.mp same
  rw [holds, holds, status]

/-- What becomes of an entry when a condition of its type is set. -/
def updatedBy (existing condition : Condition) : Condition :=
  if existing.equivalent condition then existing else condition

/-- An entry that was updated says what the condition says that it was updated by. -/
theorem equivalent_updatedBy (existing condition : Condition) :
    (existing.updatedBy condition).equivalent condition = true := by
  unfold updatedBy
  split
  · assumption
  · exact equivalent_self condition

/-- An entry that was updated has the type of the condition, which is its own wherever entries are
updated. -/
@[simp] theorem type_updatedBy (existing condition : Condition) :
    (existing.updatedBy condition).type = condition.type :=
  (equivalent_iff.mp (equivalent_updatedBy existing condition)).1

/-- An entry is left alone exactly if it says the same. Otherwise the whole condition takes its
place, time included. -/
theorem updatedBy_eq_self_iff :
    existing.updatedBy condition = existing ↔ existing.equivalent condition = true := by
  constructor
  · intro alone
    exact alone ▸ equivalent_updatedBy existing condition
  · intro same
    exact if_pos same

/-! ## Setting one condition -/

/-- The two ways in which a condition enters a list, with what is told of it. -/
inductive Enters (condition : Condition) : List Condition → List Condition → Bool → Prop where
  /-- A condition of a new type comes last. -/
  | behind {conditions : List Condition} (new : condition.type ∉ conditions.map type) :
      Enters condition conditions (conditions ++ [condition]) true
  /-- The first entry of the type is updated. -/
  | inPlace {earlier later : List Condition} {existing : Condition}
      (first : condition.type ∉ earlier.map type) (own : existing.type = condition.type) :
      Enters condition (earlier ++ existing :: later)
        (earlier ++ existing.updatedBy condition :: later) (!existing.equivalent condition)

/-- An entry of another type is passed by: the condition enters the rest of the list. -/
theorem Enters.pass {head : Condition} (foreign : head.type ≠ condition.type)
    (enters : condition.Enters before after changed) :
    condition.Enters (head :: before) (head :: after) changed := by
  cases enters with
  | behind new =>
    apply Enters.behind
    simpa [foreign.symm] using new
  | @inPlace earlier later existing first own =>
    have passed : condition.type ∉ (head :: earlier).map type := by
      simpa [foreign.symm] using first
    exact .inPlace passed own

/-- To set a condition is to let it enter the list in one of the two ways. -/
theorem enters_set (condition : Condition) (conditions : List Condition) :
    condition.Enters conditions (condition.set conditions) (condition.changes conditions) := by
  have unlisted : condition.type ∉ ([] : List Condition).map type := List.not_mem_nil
  induction conditions with
  | nil => exact .behind unlisted
  | cons head tail ih =>
    by_cases own : head.type = condition.type
    · have set : condition.set (head :: tail) = [] ++ head.updatedBy condition :: tail := by
        by_cases same : head.equivalent condition = true
        · simp [Condition.set, updatedBy, own, same]
        · simp [Condition.set, updatedBy, own, same]
      have told : condition.changes (head :: tail) = !head.equivalent condition := by
        simp [changes, own]
      rw [set, told]
      exact .inPlace unlisted own
    · have set : condition.set (head :: tail) = head :: condition.set tail := by
        simp [Condition.set, own]
      have told : condition.changes (head :: tail) = condition.changes tail := by
        simp [changes, own]
      rw [set, told]
      exact ih.pass own

namespace Enters

/-- The types that were listed stay in their order, and a new one comes last. -/
theorem types (enters : condition.Enters before after changed) :
    after.map type =
      before.map type ++ if condition.type ∈ before.map type then [] else [condition.type] := by
  cases enters with
  | behind new => rw [if_neg new, List.map_append, List.map_singleton]
  | inPlace first own => simp [own]

/-- A change is told of exactly if there was one, in whatever place. -/
theorem told (enters : condition.Enters before after changed) :
    changed = true ↔ after ≠ before := by
  cases enters with
  | behind new => simp
  | inPlace first own => simp [updatedBy_eq_self_iff]

/-- A condition of a new type is added at the end. -/
theorem added (enters : condition.Enters before after changed)
    (new : condition.type ∉ before.map type) : after = before ++ [condition] := by
  cases enters with
  | behind => rfl
  | inPlace first own => simp [own] at new

/-- The first entry of the type says what the condition says. It is the condition itself, or it was
there before and says the same. -/
theorem found (enters : condition.Enters before after changed) :
    ∃ found, after.find? (·.type = condition.type) = some found ∧
      found.equivalent condition = true := by
  cases enters with
  | behind new =>
    refine ⟨condition, ?_, equivalent_self condition⟩
    rw [List.find?_append, List.find?_eq_none.mpr (by simpa using new)]
    simp
  | @inPlace earlier later existing first own =>
    refine ⟨existing.updatedBy condition, ?_, equivalent_updatedBy existing condition⟩
    rw [List.find?_append, List.find?_eq_none.mpr (by simpa using first)]
    simp

/-- Each entry stays where it is, as it is or updated; it is updated only by a condition of its own
type. -/
theorem stored (enters : condition.Enters before after changed) {i : Nat}
    (stored : before[i]? = some entry) :
    after[i]? = some entry ∨
      entry.type = condition.type ∧ after[i]? = some (entry.updatedBy condition) := by
  cases enters with
  | behind new =>
    have inside : i < before.length := (List.getElem?_eq_some_iff.mp stored).1
    exact .inl ((List.getElem?_append_left inside).trans stored)
  | @inPlace earlier later existing first own =>
    rw [List.getElem?_append] at stored ⊢
    split
    · rename_i inside
      exact .inl ((if_pos inside).symm.trans stored)
    · rename_i outside
      rw [if_neg outside] at stored
      cases place : i - earlier.length with
      | zero =>
        rw [place, List.getElem?_cons_zero] at stored
        cases stored
        exact .inr ⟨own, rfl⟩
      | succ j =>
        rw [place] at stored
        exact .inl stored

/-- An entry that the condition does not oppose is left alone: it is of another type, or it says the
same. -/
theorem spared (enters : condition.Enters before after changed) {i : Nat}
    (stored : before[i]? = some entry)
    (unopposed : condition.type = entry.type → entry.equivalent condition = true) :
    after[i]? = some entry := by
  rcases enters.stored stored with alone | ⟨own, updated⟩
  · exact alone
  · rwa [updatedBy_eq_self_iff.mpr (unopposed own.symm)] at updated

/-- Entries of other types stay in their places, and none is brought in: behind the former entries
there is the condition itself, if anything. -/
theorem others (enters : condition.Enters before after changed)
    (foreign : other.type ≠ condition.type) (i : Nat) :
    after[i]? = some other ↔ before[i]? = some other := by
  constructor
  · intro listed
    cases found : before[i]? with
    | some entry =>
      rcases enters.stored found with alone | ⟨-, updated⟩
      · exact alone.symm.trans listed
      · cases updated.symm.trans listed
        exact absurd (type_updatedBy entry condition) foreign
    | none =>
      have typed : (after.map type)[i]? = some other.type := by
        rw [List.getElem?_map, listed]
        rfl
      have outside : (before.map type).length ≤ i := by
        simpa using List.getElem?_eq_none_iff.mp found
      rw [enters.types, List.getElem?_append_right outside] at typed
      have added := List.mem_of_getElem? typed
      split at added
      · cases added
      · exact absurd (List.mem_singleton.mp added) foreign
  · intro stored
    exact enters.spared stored fun own => absurd own.symm foreign

end Enters

/-- Setting a condition leaves all conditions of other types in their places, and brings no such
condition in. -/
theorem getElem?_set_of_type_ne (foreign : other.type ≠ condition.type) (i : Nat) :
    (condition.set conditions)[i]? = some other ↔ conditions[i]? = some other :=
  (enters_set condition conditions).others foreign i

/-- After a condition was set, the first entry of its type says what the condition says. -/
theorem find?_set (condition : Condition) (conditions : List Condition) :
    ∃ found, (condition.set conditions).find? (·.type = condition.type) = some found ∧
      found.equivalent condition = true :=
  (enters_set condition conditions).found

/-- A list changes exactly if a change is told of. -/
theorem set_eq_self_iff : condition.set conditions = conditions ↔
    condition.changes conditions = false := by
  rw [← Bool.not_eq_true, (enters_set condition conditions).told, not_not]

/-- A condition that says what was set just before is not set again, so that the former time
stays. -/
theorem set_set {first second : Condition} (same : first.equivalent second = true)
    (conditions : List Condition) : second.set (first.set conditions) = first.set conditions := by
  obtain ⟨entry, found, agrees⟩ := find?_set first conditions
  rw [(equivalent_iff.mp same).1] at found
  rw [set_eq_self_iff, changes, found]
  simpa using equivalent_trans agrees same

/-! ## One entry for each type -/

/-- No type is listed twice. -/
def OnePerType (conditions : List Condition) : Prop := (conditions.map type).Nodup

instance : DecidablePred OnePerType := fun conditions =>
  inferInstanceAs (Decidable (conditions.map type).Nodup)

/-- The first entry of a type is the only one, where no two entries have one type. -/
theorem OnePerType.filter_of_find? (unique : OnePerType conditions) {aspect : String}
    (found : conditions.find? (·.type = aspect) = some entry) :
    conditions.filter (·.type = aspect) = [entry] := by
  obtain ⟨own, earlier, later, rfl, foreign⟩ := List.find?_eq_some_iff_append.mp found
  have typed : entry.type = aspect := of_decide_eq_true own
  have single : entry.type ∉ later.map type := by
    rw [OnePerType, List.map_append, List.map_cons] at unique
    exact (List.nodup_cons.mp (List.nodup_append.mp unique).2.1).1
  have before : earlier.filter (·.type = aspect) = [] := by
    simpa using foreign
  have behind : later.filter (·.type = aspect) = [] := by
    simpa [typed] using single
  have kept : (entry :: later).filter (·.type = aspect) = entry :: later.filter (·.type = aspect) :=
    List.filter_cons_of_pos own
  rw [List.filter_append, before, kept, behind, List.nil_append]

namespace Enters

/-- Where no two entries have one type, a condition that enters makes no second entry of its
type. -/
theorem onePerType (enters : condition.Enters before after changed)
    (unique : OnePerType before) : OnePerType after := by
  unfold OnePerType
  rw [enters.types]
  split
  · rw [List.append_nil]
    exact unique
  · rename_i new
    exact List.Nodup.append unique (List.nodup_singleton _) (List.disjoint_singleton.mpr new)

/-- If no type was listed twice, the entry of the type is updated, wherever it is. It is the only
one of its type, so that it is the one that says the same as the condition afterwards. -/
theorem updated (enters : condition.Enters before after changed) (unique : OnePerType before)
    {i : Nat} (stored : before[i]? = some existing) (own : existing.type = condition.type) :
    after[i]? = some (existing.updatedBy condition) := by
  rcases enters.stored stored with alone | ⟨-, updated⟩
  · obtain ⟨entry, found, agrees⟩ := enters.found
    have listed : existing ∈ after.filter (·.type = condition.type) :=
      List.mem_filter.mpr ⟨List.mem_of_getElem? alone, decide_eq_true own⟩
    rw [(enters.onePerType unique).filter_of_find? found, List.mem_singleton] at listed
    rw [updatedBy_eq_self_iff.mpr (listed ▸ agrees)]
    exact alone
  · exact updated

end Enters

/-- What setting a condition makes of a list, and what it tells of it. -/
structure Sets (condition : Condition) (conditions : List Condition) : Prop where
  onePerType : OnePerType (condition.set conditions)
  /-- No entry is dropped or moved, and a new type comes last. -/
  types : (condition.set conditions).map type = conditions.map type ++
    if condition.type ∈ conditions.map type then [] else [condition.type]
  /-- There is one entry of the type, and it says what the condition says. -/
  agrees : ∃ entry, (condition.set conditions).filter (·.type = condition.type) = [entry] ∧
    entry.equivalent condition = true
  /-- All other entries are what they were, and where they were. -/
  others : ∀ (i : Nat) (other : Condition), other.type ≠ condition.type →
    ((condition.set conditions)[i]? = some other ↔ conditions[i]? = some other)
  /-- An entry of the type makes room exactly if it says something else, whatever its time. -/
  replaced : ∀ (i : Nat) (existing : Condition), conditions[i]? = some existing →
    existing.type = condition.type →
    ((condition.set conditions)[i]? ≠ some existing ↔
      existing.status ≠ condition.status ∨ existing.reason ≠ condition.reason ∨
        existing.message ≠ condition.message)
  /-- It makes room for nothing but the condition, with the time of the condition. -/
  replacement : ∀ (i : Nat) (existing : Condition), conditions[i]? = some existing →
    existing.type = condition.type →
    (condition.set conditions)[i]? = some existing ∨
      (condition.set conditions)[i]? = some condition
  /-- Of a new type the condition is added as it is. -/
  added : condition.type ∉ conditions.map type →
    condition.set conditions = conditions ++ [condition]
  /-- A change is told of exactly if there is one. -/
  told : condition.changes conditions = true ↔ condition.set conditions ≠ conditions

/-- In a list with one entry per type, setting a condition does all that is asked of it: it adds or
replaces the one entry of its type, and leaves the others alone. -/
theorem sets_of_onePerType (unique : OnePerType conditions) (condition : Condition) :
    condition.Sets conditions := by
  have enters := enters_set condition conditions
  have once := enters.onePerType unique
  refine ⟨once, enters.types, ?_, ?_, ?_, ?_, enters.added, enters.told⟩
  · obtain ⟨entry, found, agrees⟩ := enters.found
    exact ⟨entry, once.filter_of_find? found, agrees⟩
  · intro i other foreign
    exact enters.others foreign i
  · intro i existing stored own
    rw [enters.updated unique stored own, Ne, Option.some.injEq, updatedBy_eq_self_iff,
      equivalent_iff]
    simp only [own, true_and, not_and_or]
  · intro i existing stored own
    rw [enters.updated unique stored own, updatedBy]
    split
    · exact .inl rfl
    · exact .inr rfl

/-! ## Setting one condition after the other -/

/-- Set conditions in the order in which they are given. -/
def setAll (calls conditions : List Condition) : List Condition :=
  calls.foldl (fun kept condition => condition.set kept) conditions

/-- The last of several conditions is set in what the others have made. -/
theorem setAll_concat (calls : List Condition) (condition : Condition)
    (conditions : List Condition) :
    setAll (calls ++ [condition]) conditions = condition.set (setAll calls conditions) :=
  List.foldl_append

/-- However many conditions are set, one entry per type stays one entry per type. -/
theorem onePerType_setAll (unique : OnePerType conditions) (calls : List Condition) :
    OnePerType (setAll calls conditions) := by
  induction calls using List.reverseRecOn with
  | nil => exact unique
  | append_singleton calls condition ih =>
    rw [setAll_concat]
    exact (enters_set condition _).onePerType ih

/-- An entry that no call opposes stays where it is, with its time. The induction is on the calls,
the last of them first. -/
theorem getElem?_setAll {calls : List Condition} {i : Nat}
    (stored : conditions[i]? = some entry)
    (unopposed : ∀ call ∈ calls, call.type = entry.type → entry.equivalent call = true) :
    (setAll calls conditions)[i]? = some entry := by
  induction calls using List.reverseRecOn with
  | nil => exact stored
  | append_singleton calls condition ih =>
    rw [setAll_concat]
    have before := ih fun call member => unopposed call (List.mem_append_left _ member)
    apply (enters_set condition _).spared before
    exact unopposed condition List.mem_concat_self

/-- Without its repetitions, a list grows by what it has not had. -/
theorem eraseDups_concat {κ : Type} [DecidableEq κ] (keys : List κ) (key : κ) :
    (keys ++ [key]).eraseDups = keys.eraseDups ++ if key ∈ keys then [] else [key] := by
  rw [List.eraseDups_append]
  by_cases had : key ∈ keys
  · simp [List.removeAll, had]
  · simp [List.removeAll, had, List.eraseDups_cons]

/-- The types that were listed come first, then the others that were set, in the order in which
they were set first. -/
theorem types_setAll (calls conditions : List Condition) :
    (setAll calls conditions).map type = conditions.map type ++
      ((calls.map type).filter (· ∉ conditions.map type)).eraseDups := by
  induction calls using List.reverseRecOn with
  | nil => simp [setAll]
  | append_singleton calls condition ih =>
    rw [setAll_concat, (enters_set condition _).types, ih, List.map_append, List.map_singleton,
      List.filter_append]
    by_cases listed : condition.type ∈ conditions.map type
    · have passed : [condition.type].filter (· ∉ conditions.map type) = [] := by
        simpa using listed
      rw [if_pos (List.mem_append_left _ listed), passed, List.append_nil, List.append_nil]
    · have added : [condition.type].filter (· ∉ conditions.map type) = [condition.type] := by
        simpa using listed
      rw [added, eraseDups_concat, List.append_assoc]
      simp only [List.mem_append, listed, false_or, List.mem_eraseDups]

end Condition

/-- Conditions of a status are set in its list, and nothing else of the status changes. -/
theorem Status.foldl_setCondition (status : Status) (calls : List Condition) :
    calls.foldl Status.setCondition status =
      { status with conditions := Condition.setAll calls status.conditions } := by
  induction calls generalizing status with
  | nil => rfl
  | cons call later ih => exact ih (status.setCondition call)

namespace Condition

/-- What becomes of a list when one condition after the other is set. -/
structure Keeps (calls conditions : List Condition) : Prop where
  /-- Every call finds the list in order and leaves it in order. -/
  each : ∀ earlier condition later, calls = earlier ++ condition :: later →
    condition.Sets (setAll earlier conditions)
  onePerType : OnePerType (setAll calls conditions)
  /-- Types are listed in the order in which they came in. -/
  types : (setAll calls conditions).map type = conditions.map type ++
    ((calls.map type).filter (· ∉ conditions.map type)).eraseDups
  /-- An entry stays in its place, with its time, while no call says anything else about its
  type. -/
  unopposed : ∀ (i : Nat) (entry : Condition), conditions[i]? = some entry →
    (∀ call ∈ calls, call.type = entry.type → entry.equivalent call = true) →
    (setAll calls conditions)[i]? = some entry
  /-- The conditions of a status are kept in the same way, and its files are left alone. -/
  status : ∀ status : Status, status.conditions = conditions →
    calls.foldl Status.setCondition status =
      { status with conditions := setAll calls conditions }

/-- Whatever conditions are set, one after the other: a list in which no type is listed twice is
changed where a call says something new, and only there. -/
theorem one_entry_per_type (unique : OnePerType conditions) (calls : List Condition) :
    Keeps calls conditions where
  each := by
    intro earlier condition later _
    exact sets_of_onePerType (onePerType_setAll unique earlier) condition
  onePerType := onePerType_setAll unique calls
  types := types_setAll calls conditions
  unopposed := by
    intro i entry stored unopposed
    exact getElem?_setAll stored unopposed
  status := by
    rintro status rfl
    exact status.foldl_setCondition calls

/-- Two reports, one of them made by others. -/
def sharedConditions : List Condition :=
  [.ready "2024-01-01T00:00:00Z" .true successReason "",
    { type := "Reviewed", status := .unknown, lastTransitionTime := none, reason := "Queued"
      message := "" }]

/-- The controller says the same again and then something else; others report on a new aspect,
twice. -/
def sharedCalls : List Condition :=
  let audited (now : Timestamp) : Condition :=
    { type := "Audited", status := .true, lastTransitionTime := some now, reason := "Sampled"
      message := "" }
  [.ready "2024-02-01T00:00:00Z" .true successReason "", audited "2024-02-02T00:00:00Z",
    .ready "2024-03-01T00:00:00Z" .false syncingReason "sync files.",
    audited "2024-03-02T00:00:00Z"]

/-- Of the four calls the second and the third change the list, and their times are the ones that
are found in it. -/
theorem one_entry_per_type_shared :
    OnePerType sharedConditions ∧ Keeps sharedCalls sharedConditions ∧
      setAll sharedCalls sharedConditions =
        [.ready "2024-03-01T00:00:00Z" .false syncingReason "sync files.",
          { type := "Reviewed", status := .unknown, lastTransitionTime := none, reason := "Queued"
            message := "" },
          { type := "Audited", status := .true, lastTransitionTime := some "2024-02-02T00:00:00Z"
            reason := "Sampled", message := "" }] ∧
      sharedCalls.mapIdx (fun i call => call.changes (setAll (sharedCalls.take i) sharedConditions))
        = [false, true, true, false] := by
  have unique : OnePerType sharedConditions := by decide
  exact ⟨unique, one_entry_per_type unique sharedCalls, by decide, by decide⟩

end Condition

end DatasetSync
