import Mathlib.Data.List.Nodup
import DatasetSync.Controller.Registry
import DatasetSync.Proofs.Ordered.Lookup

/-!
# One live run for each key

The registry is called from several sides. Looks register runs and stop them, and a run that ends
gives its registration back. It may do so late: a run that was superseded or stopped reports its end
at any time after, when its key belongs to another run, or to no run.

A `History` is what a sequence of such calls leaves, in whatever order they come. Beside the
registry it keeps which runs were registered, under which key, and which of them took away their
own registration. `Accounted` says what no call breaks: the runs are numbered in the order of their
registration, and each of them is registered still and not cancelled, or it was cancelled, or it
has taken away its registration. It is never two of these.

Numbers of runs are not bounded here. The counter of the program has 64 bits, and its numbers are
the ones here as long as it does not wrap around (`Accounted.distinct`).
-/

namespace DatasetSync.Registry

variable {registry : Registry} {key other : String} {id : RunId}

/-! ## What a call does -/

/-- A run gets the number of registrations before it, so that the first one has number 0. -/
@[simp] theorem register_fst : (registry.register key).1 = registry.issued := rfl

/-- A registration issues one number, whether or not the key had a run before. -/
@[simp] theorem issued_register :
    (registry.register key).2.issued = registry.issued + 1 := rfl

/-- A report of an end issues no number, whether or not it takes a registration away. -/
@[simp] theorem issued_finish : (registry.finish key id).issued = registry.issued := by
  unfold finish
  split <;> rfl

/-- A report of an end cancels nothing: neither its own run nor the one that has taken its place. -/
@[simp] theorem cancelled_finish : (registry.finish key id).cancelled = registry.cancelled := by
  unfold finish
  split <;> rfl

/-- A stop issues no number, so that the run after it has the next one still. -/
@[simp] theorem issued_stop : (registry.stop key).2.issued = registry.issued := by
  unfold stop
  split <;> rfl

/-- A stop returns the run that its key had, for the caller to wait for, and nothing if the key had
none. -/
theorem stop_fst : (registry.stop key).1 = registry.running.get? key := by
  unfold stop
  split <;> simp [*]

/-- After a registration its key has the new run, whichever run it had before, and every other key
has the run that it had. -/
theorem get?_register : (registry.register key).2.running.get? other =
    if key = other then some registry.issued else registry.running.get? other := by
  simp [register]

/-- After a stop its key has no run, and every other key has the run that it had. To stop a key
without a run changes nothing. -/
theorem get?_stop : (registry.stop key).2.running.get? other =
    if key = other then none else registry.running.get? other := by
  unfold stop
  split
  · rename_i absent
    split
    · rename_i same
      rw [← same, absent]
    · rfl
  · simp

/-- A run that has ended takes its own registration away, if it has it still. A late report, whose
key belongs to another run by now, takes nothing away. -/
theorem get?_finish : (registry.finish key id).running.get? other =
    if key = other ∧ registry.running.get? key = some id then none
    else registry.running.get? other := by
  unfold finish
  by_cases own : registry.running.get? key = some id
  · simp [own]
  · simp [own]

/-- The run of a key is cancelled with it, and no other run. Those that were cancelled before stay
so. -/
theorem mem_cancelRunOf {run : RunId} : run ∈ registry.cancelRunOf key ↔
    registry.running.get? key = some run ∨ run ∈ registry.cancelled := by
  unfold cancelRunOf
  split
  · rename_i former present
    rw [OrderedSet.mem_insert, present, Option.some.injEq, eq_comm]
  · rename_i absent
    simp [absent]

/-- A stop cancels the run of its key. A key without a run leaves the cancelled runs as they are. -/
@[simp] theorem cancelled_stop :
    (registry.stop key).2.cancelled = registry.cancelRunOf key := by
  unfold stop
  split
  · rename_i absent
    simp [cancelRunOf, absent]
  · rfl

/-- A run whose place is taken is cancelled by the registration that takes it, before the new run
makes a call. -/
theorem isCancelled_register (former : registry.running.get? key = some id) :
    (registry.register key).2.isCancelled id = true :=
  decide_eq_true (mem_cancelRunOf.mpr (.inl former))

/-! ## What a sequence of calls leaves -/

/-- A call of the registry. -/
inductive Demand where
  /-- A look or a resync launches a run. -/
  | register (key : String)
  /-- A look at a deleted document stops its run. -/
  | stop (key : String)
  /-- A run reports its end. -/
  | finish (key : String) (id : RunId)
deriving DecidableEq, Repr

/-- The registry after a call. -/
def meet (registry : Registry) : Demand → Registry
  | .register key => (registry.register key).2
  | .stop key => (registry.stop key).2
  | .finish key id => registry.finish key id

/-- The registry, and what has happened to it. -/
structure History where
  registry : Registry
  /-- Each run that was registered, with its key, the first one first. -/
  registered : List (String × RunId)
  /-- Each run that took away its own registration, with its key, the first one first. -/
  returned : List (String × RunId)
deriving DecidableEq, Repr

namespace History

/-- Before any call. -/
def start : History := ⟨.empty, [], []⟩

/-- What one more call leaves. -/
def extend (history : History) (demand : Demand) : History where
  registry := history.registry.meet demand
  registered :=
    match demand with
    | .register key => history.registered ++ [(key, (history.registry.register key).1)]
    | _ => history.registered
  returned :=
    match demand with
    | .finish key id =>
      if history.registry.running.get? key = some id then history.returned ++ [(key, id)]
      else history.returned
    | _ => history.returned

/-- What a sequence of calls leaves. -/
def of (demands : List Demand) : History := demands.foldl extend start

/-- The registry after one more call is what that call makes of the registry before it, so that
sequences of calls are followed from their last one. -/
theorem registry_of_concat (demands : List Demand) (demand : Demand) :
    (of (demands ++ [demand])).registry = (of demands).registry.meet demand := by
  rw [of, List.foldl_concat]
  rfl

variable {history : History}

/-- A run is registered still. -/
def Holds (history : History) (key : String) (id : RunId) : Prop :=
  history.registry.running.get? key = some id

/-- After a report of an end all registrations are held but the reported one. If another run holds
the key by then, the report names none that is held. -/
theorem holds_finish {key other : String} {id run : RunId} :
    (history.extend (.finish key id)).Holds other run ↔
      history.Holds other run ∧ (other, run) ≠ (key, id) := by
  simp only [Holds, extend, meet, get?_finish]
  split
  · rename_i own
    obtain ⟨rfl, own⟩ := own
    refine iff_of_false nofun fun both => both.2 ?_
    rw [Option.some.inj (both.1.symm.trans own)]
  · rename_i spared
    refine (and_iff_left_of_imp fun holds => ?_).symm
    rintro ⟨⟩
    exact spared ⟨rfl, holds⟩

/-- A reported run has taken away its registration if it had it still. A report that comes late is
not counted among the returned ones. -/
theorem mem_returned_finish {key other : String} {id run : RunId} :
    (other, run) ∈ (history.extend (.finish key id)).returned ↔
      (other, run) ∈ history.returned ∨ (other, run) = (key, id) ∧ history.Holds key id := by
  by_cases own : history.Holds key id
  · have grown : (history.extend (.finish key id)).returned = history.returned ++ [(key, id)] :=
      if_pos own
    rw [grown, List.mem_append, List.mem_singleton, and_iff_left own]
  · have same : (history.extend (.finish key id)).returned = history.returned := if_neg own
    rw [same, or_iff_left fun both => own both.2]

/-- What no call breaks. -/
structure Accounted (history : History) : Prop where
  /-- Runs are numbered in the order of their registration. -/
  numbered : history.registered.map Prod.snd = List.range history.registry.issued
  /-- What is held was registered, and it is neither cancelled nor returned. -/
  held : ∀ {key id}, history.Holds key id → (key, id) ∈ history.registered ∧
    id ∉ history.registry.cancelled ∧ (key, id) ∉ history.returned
  /-- What is not held any more was cancelled or returned. -/
  parted : ∀ {key id}, (key, id) ∈ history.registered → ¬ history.Holds key id →
    (id ∈ history.registry.cancelled ↔ (key, id) ∉ history.returned)
  /-- What was cancelled had been registered. -/
  cancelled : ∀ {id}, id ∈ history.registry.cancelled → id < history.registry.issued
  /-- What was returned had been registered. -/
  returned : ∀ {key id}, (key, id) ∈ history.returned → (key, id) ∈ history.registered

namespace Accounted

/-- Registered runs have numbers that were issued, since they are numbered in the order of their
registration. -/
theorem issued (accounted : history.Accounted) {key : String} {id : RunId}
    (member : (key, id) ∈ history.registered) : id < history.registry.issued := by
  have listed : id ∈ history.registered.map Prod.snd := List.mem_map.mpr ⟨_, member, rfl⟩
  rwa [accounted.numbered, List.mem_range] at listed

/-- A run is registered under one key. Numbers are not issued twice, so that two entries with the
same number are the same entry. -/
theorem key_unique (accounted : history.Accounted) {key other : String} {id : RunId}
    (member : (key, id) ∈ history.registered) (also : (other, id) ∈ history.registered) :
    key = other := by
  have distinct : (history.registered.map Prod.snd).Nodup :=
    accounted.numbered ▸ List.nodup_range
  exact congrArg Prod.fst (List.inj_on_of_nodup_map distinct member also rfl)

/-- Whoever holds a registered run holds it under its key: what is held was registered, and a run is
registered once. -/
theorem key_of_holds (accounted : history.Accounted) {key other : String} {id : RunId}
    (member : (key, id) ∈ history.registered) (holds : history.Holds other id) : other = key :=
  accounted.key_unique (accounted.held holds).1 member

/-- What is cancelled with a key had been registered, be it the run of the key or one that was
cancelled before. The next number is therefore never cancelled in advance. -/
theorem issued_of_cancelled (accounted : history.Accounted) {key : String} {id : RunId}
    (dropped : id ∈ history.registry.cancelRunOf key) : id < history.registry.issued := by
  rcases mem_cancelRunOf.mp dropped with former | earlier
  · exact accounted.issued (accounted.held former).1
  · exact accounted.cancelled earlier

/-- What is cancelled with a key leaves the runs of all other keys alone. A run under another key is
neither the former one, which has its own key, nor cancelled already. -/
theorem spared (accounted : history.Accounted) {key other : String} {id : RunId}
    (elsewhere : key ≠ other) (holds : history.Holds other id) :
    id ∉ history.registry.cancelRunOf key := by
  intro dropped
  rcases mem_cancelRunOf.mp dropped with former | earlier
  · exact elsewhere (accounted.key_of_holds (accounted.held holds).1 former)
  · exact (accounted.held holds).2.1 earlier

/-- A run that is held under no other key is cancelled with the key, unless it was returned. This is
the part that registrations and stops have in common. -/
theorem vacated (accounted : history.Accounted) {key other : String} {id : RunId}
    (member : (other, id) ∈ history.registered) (own : history.Holds other id → key = other) :
    id ∈ history.registry.cancelRunOf key ↔ (other, id) ∉ history.returned := by
  rw [mem_cancelRunOf]
  by_cases holds : history.Holds other id
  · cases own holds
    exact iff_of_true (.inl holds) (accounted.held holds).2.2
  · have foreign : ¬ history.Holds key id := fun former =>
      holds (accounted.key_of_holds member former ▸ former)
    exact (or_iff_right foreign).trans (accounted.parted member holds)

/-- Before any call nothing is to be accounted for: no number is issued, no run is held, and none is
cancelled or returned. -/
theorem start : History.start.Accounted where
  numbered := rfl
  held holds := by cases holds
  parted member := by cases member
  cancelled member := by cases member
  returned member := by cases member

/-- A registration takes the place of the run that the key had, and cancels it. The new run has the
next number, so that it is neither cancelled nor returned yet; all other keys keep their runs. -/
theorem register (accounted : history.Accounted) (key : String) :
    (history.extend (.register key)).Accounted where
  numbered := by
    simp [extend, meet, accounted.numbered, List.range_succ]
  held := by
    intro other id holds
    simp only [Holds, extend, meet, get?_register] at holds
    split at holds
    · rename_i own
      cases own
      cases holds
      refine ⟨List.mem_append_right _ List.mem_cons_self, fun dropped => ?_, fun returned => ?_⟩
      · exact Nat.lt_irrefl _ (accounted.issued_of_cancelled dropped)
      · exact Nat.lt_irrefl _ (accounted.issued (accounted.returned returned))
    · rename_i elsewhere
      obtain ⟨member, -, kept⟩ := accounted.held holds
      exact ⟨List.mem_append_left _ member, accounted.spared elsewhere holds, kept⟩
  parted := by
    intro other id member parted
    simp only [Holds, extend, meet, get?_register] at parted
    rcases List.mem_append.mp member with member | new
    · refine accounted.vacated member fun holds => ?_
      by_contra elsewhere
      exact parted ((if_neg elsewhere).trans holds)
    · cases List.mem_singleton.mp new
      exact absurd (if_pos rfl) parted
  cancelled := fun dropped => Nat.lt_succ_of_lt (accounted.issued_of_cancelled dropped)
  returned := fun member => List.mem_append_left _ (accounted.returned member)

/-- A stop takes the run of its key away and cancels it. Afterwards the key holds no run, and what
it had held is parted by having been cancelled, not by having been returned. -/
theorem stop (accounted : history.Accounted) (key : String) :
    (history.extend (.stop key)).Accounted where
  numbered := by simp [extend, meet, accounted.numbered]
  held := by
    intro other id holds
    simp only [Holds, extend, meet, get?_stop] at holds
    split at holds
    · cases holds
    · rename_i elsewhere
      obtain ⟨member, -, kept⟩ := accounted.held holds
      exact ⟨member, cancelled_stop ▸ accounted.spared elsewhere holds, kept⟩
  parted := by
    intro other id member parted
    simp only [Holds, extend, meet, get?_stop] at parted
    refine cancelled_stop ▸ accounted.vacated member fun holds => ?_
    by_contra elsewhere
    exact parted ((if_neg elsewhere).trans holds)
  cancelled := by
    intro id dropped
    simp only [extend, meet, cancelled_stop] at dropped
    simpa [extend, meet] using accounted.issued_of_cancelled dropped
  returned := accounted.returned

/-- A report of an end takes the registration of its own run away, and leaves any other. Only the
reported run can lose its registration by it, and that run was not cancelled, so that it is parted
by having been returned alone. -/
theorem finish (accounted : history.Accounted) (key : String) (id : RunId) :
    (history.extend (.finish key id)).Accounted where
  numbered := by simp [extend, meet, accounted.numbered]
  held := by
    intro other run holds
    obtain ⟨before, different⟩ := holds_finish.mp holds
    obtain ⟨member, live, back⟩ := accounted.held before
    refine ⟨member, by simpa [extend, meet] using live, fun returned => ?_⟩
    rcases mem_returned_finish.mp returned with earlier | ⟨same, -⟩
    · exact back earlier
    · exact different same
  parted := by
    intro other run member parted
    rw [mem_returned_finish, not_or]
    have kept : (history.extend (.finish key id)).registry.cancelled =
        history.registry.cancelled := cancelled_finish
    by_cases before : history.Holds other run
    · have same : (other, run) = (key, id) := by
        by_contra different
        exact parted (holds_finish.mpr ⟨before, different⟩)
      rw [kept]
      cases same
      exact iff_of_false (accounted.held before).2.1 fun both => both.2 ⟨rfl, before⟩
    · have unmoved : ¬ ((other, run) = (key, id) ∧ history.Holds key id) := by
        rintro ⟨⟨⟩, own⟩
        exact before own
      rw [kept, accounted.parted member before]
      exact (and_iff_left unmoved).symm
  cancelled := by
    intro run dropped
    simp only [extend, meet, cancelled_finish] at dropped
    simpa [extend, meet] using accounted.cancelled dropped
  returned := by
    intro other run returned
    rcases mem_returned_finish.mp returned with earlier | ⟨⟨⟩, own⟩
    · exact accounted.returned earlier
    · exact (accounted.held own).1

/-- No call breaks the account, by whomever and for whichever key it is made. There is one case for
each kind of call. -/
theorem extend (accounted : history.Accounted) (demand : Demand) :
    (history.extend demand).Accounted := by
  cases demand with
  | register key => exact accounted.register key
  | stop key => exact accounted.stop key
  | finish key id => exact accounted.finish key id

/-- No sequence of calls breaks the account, by induction on the calls. What reports come late, or
never, makes no difference. -/
theorem extendAll (accounted : history.Accounted) (demands : List Demand) :
    (demands.foldl History.extend history).Accounted := by
  induction demands generalizing history with
  | nil => exact accounted
  | cons demand later ih => exact ih (accounted.extend demand)

/-- While the counter has not wrapped around, the runs have distinct numbers in its 64 bits. -/
theorem distinct (accounted : history.Accounted) (few : history.registered.length < UInt64.size) :
    (history.registered.map fun entry => UInt64.ofNat entry.2).Nodup := by
  have counted := congrArg List.length accounted.numbered
  rw [List.length_map, List.length_range] at counted
  have exact : ∀ id < history.registry.issued, (UInt64.ofNat id).toNat = id :=
    fun id below => UInt64.toNat_ofNat_of_lt' (Nat.lt_trans below (counted ▸ few))
  have listed : history.registered.map (fun entry => UInt64.ofNat entry.2) =
      (List.range history.registry.issued).map UInt64.ofNat := by
    rw [← accounted.numbered, List.map_map]
    rfl
  rw [listed]
  refine List.Nodup.map_on (fun id below run also same => ?_) List.nodup_range
  rw [← exact id (List.mem_range.mp below), same, exact run (List.mem_range.mp also)]

end Accounted

/-- A history in which each key has at most one run, and the run is alive. -/
structure OneLiveRun (history : History) : Prop where
  /-- No key has two registrations. -/
  single : history.registry.running.keys.Nodup
  /-- The run of a key was registered under it, and the registry has not cancelled it. -/
  live : ∀ key id, history.registry.running.get? key = some id →
    (key, id) ∈ history.registered ∧ history.registry.isCancelled id = false
  /-- A run that was registered and is not any more was cancelled, or it took away its own
  registration; it was not both. -/
  parted : ∀ key id, (key, id) ∈ history.registered →
    history.registry.running.get? key ≠ some id →
    (history.registry.isCancelled id = true ↔ (key, id) ∉ history.returned)
  /-- A report of an end takes no registration of another run or under another key. -/
  spared : ∀ key id other run, (other, run) ≠ (key, id) →
    history.registry.running.get? other = some run →
    (history.registry.finish key id).running.get? other = some run
  /-- No two runs have one number, also not in the 64 bits of the counter. -/
  distinct : (history.registered.map fun entry => UInt64.ofNat entry.2).Nodup

/-- Whatever registrations, stops and reports of ends there were, in whatever order: there is one
live run for each key that has a run, and no run has vanished. -/
theorem one_live_run (demands : List Demand) (few : (of demands).registered.length < UInt64.size) :
    (of demands).OneLiveRun := by
  have accounted : (of demands).Accounted := .extendAll .start demands
  refine ⟨OrderedMap.nodup_keys _, ?_, ?_, ?_, ?_⟩
  · intro key id holds
    obtain ⟨member, live, -⟩ := accounted.held holds
    exact ⟨member, decide_eq_false live⟩
  · intro key id member parted
    rw [isCancelled, decide_eq_true_eq]
    exact accounted.parted member parted
  · intro key id other run different holds
    exact holds_finish.mpr ⟨holds, different⟩
  · exact accounted.distinct few

/-- A run that was superseded reports its end late, when its key has a third run, and leaves that
registered; a run that was stopped reports its end when its key has none. -/
theorem one_live_run_late_reports :
    let history := of [.register "team-a/ds-v1", .register "team-a/ds-v1",
      .register "team-a/ds-v2", .finish "team-a/ds-v1" 0, .finish "team-a/ds-v1" 1,
      .stop "team-a/ds-v2", .register "team-a/ds-v1", .finish "team-a/ds-v2" 2,
      .finish "team-a/ds-v1" 0]
    history.OneLiveRun ∧ history.registry.running.toList = [("team-a/ds-v1", 3)] ∧
      history.registry.cancelled.toList = [0, 2] ∧ history.returned = [("team-a/ds-v1", 1)] :=
  ⟨one_live_run _ (by decide), by decide, by decide, by decide⟩

end History

end DatasetSync.Registry
