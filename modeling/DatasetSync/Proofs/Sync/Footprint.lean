import DatasetSync.Proofs.Store.Account
import DatasetSync.Proofs.Sync.Course

/-!
# What a run does to objects

A run touches objects only by the jobs of its pool: the calls of its producer and those that
conclude it leave all objects where they are. The jobs of a copy copy, and those of a removal
remove. Hence a move of a copy adds at most the object of one copy that ends well, and a move of
a removal takes at most the object of one removal that ends well. Whether it was such a move is
read off the log of the store. Nothing is assumed of the plan, of what the stores refuse, or of
what others do between the moves; the run may be cancelled at any time.
-/

namespace DatasetSync

open Pool

/-- From one state of an object store to another no object was copied or removed: all objects are
where they were, and if a call was answered, it was another one. -/
structure ObjectStore.Rests (before after : ObjectStore) : Prop where
  holds : ∀ place, after.Holds place ↔ before.Holds place
  answered : ∀ call, (before.answer call).2 = after → (Call.object call).SparesObjects

/-- A store rests while nothing is asked of it: it holds what it held, and no call can have led from
it to itself, since every call is logged. -/
theorem ObjectStore.rests_rfl {store : ObjectStore} : store.Rests store where
  holds _ := .rfl
  answered call same := by
    have logged := congrArg log same
    simp at logged

/-- A store rests while a call is answered that neither copies nor removes an object. Such a call
may make a bucket, which holds nothing. -/
theorem Call.SparesObjects.rests {call : Call} (spares : call.SparesObjects)
    (backends : Backends) : backends.objects.Rests (backends.answer call).2.objects where
  holds place := by
    rw [(spares.loses backends).holds place, not_false_eq_true, and_true]
  answered other same := by
    have logged := congrArg ObjectStore.log same
    rw [ObjectStore.log_answer] at logged
    cases call with
    | object call =>
      obtain rfl := @ObjectStore.eq_of_log backends.objects call other logged.symm
      exact spares
    | document | resolve | clock => simp [Backends.answer] at logged

/-- A store rests in a move of a run, or the run carries out a job in it. -/
theorem ActiveRun.HasMade.rests_or_performs {run run' : ActiveRun} {backends backends' : Backends}
    {trail : List (Exchange Calls)} (made : run.HasMade trail)
    (move : Step Backends.answer (run, backends) (run', backends')) :
    backends.objects.Rests backends'.objects ∨
      ∃ pool, run.stage = .working pool ∧ ∃ job ∈ pool.floor.running,
        ∃ result, Calling.perform Backends.answer job.perform backends = (result, backends') := by
  cases move with
  | conclude => exact .inl ObjectStore.rests_rfl
  | call call next tree state => exact .inl ((made.spares rfl).rests backends)
  | work move effect =>
    cases effect with
    | internal | delivered => exact .inl ObjectStore.rests_rfl
    | called call =>
      cases made with
      | concluding stage => cases stage
      | working stage within =>
        cases stage
        cases move with
        | call call next answer => exact .inl (within.1.2.rests backends)
    | @executed job result _ _ _ performed =>
      cases move with
      | finish position job result running =>
        exact .inr ⟨_, rfl, job, List.mem_of_getElem? running, result, performed⟩

namespace SyncPlan

variable {plan : SyncPlan} {others : Backends → Backends → Prop} {first backends : Backends}
  {history : List Turn} {run : ActiveRun} {pool : SyncPool} {job : SyncJob}

/-- A job that runs in a copy copies an object from a known place. -/
theorem Course.copies_of_running (course : plan.Course others first history run backends)
    (copies : plan.mode = .copy) (stage : run.stage = .working pool)
    (running : job ∈ pool.floor.running) : ∃ source, job.source = some source := by
  have reachable := course.reachable stage
  obtain ⟨conserved, -⟩ := reachable.honors plan.delivers_produce
  have accepted : job ∈ pool.floor.accepted :=
    conserved.mem_iff.mpr (by simp [Floor.stations, running])
  exact copies_of_accepted copies reachable accepted

/-- A job that runs in a removal is one of its removals, because the pool carries out only what the
producer has handed over. -/
theorem Course.removal_of_running (course : plan.Course others first history run backends)
    (removes : plan.mode = .remove) (stage : run.stage = .working pool)
    (running : job ∈ pool.floor.running) : job ∈ plan.removals := by
  obtain ⟨position, present⟩ := List.mem_iff_getElem?.mp running
  exact ((course.reachable stage).faithful (plan.owes_produce removes)).mem_of_running present

/-- The call of a job that removes: one removal at its destination, and nothing besides. -/
theorem perform_removal {backends : Backends} (member : job ∈ plan.removals) :
    Calling.perform Backends.answer job.perform backends =
      ((backends.objects.answer (.removeObject job.destination)).1,
        { backends with
          objects := (backends.objects.answer (.removeObject job.destination)).2 }) := by
  rw [perform_of_mem_removals member]
  rfl

variable {run' : ActiveRun} {backends' : Backends} {place : ObjectAddress}

/-- After a move of a copy an object is at a place exactly if it was there before, or a copy to
the place has just ended well. -/
theorem Course.holds_of_copy (course : plan.Course others first history run backends)
    (copies : plan.mode = .copy)
    (move : ActiveRun.Step Backends.answer (run, backends) (run', backends'))
    (place : ObjectAddress) :
    backends'.objects.Holds place ↔ backends.objects.Holds place ∨ ∃ source,
      backends.objects.answer (.copyObject place source) = (.ok (), backends'.objects) := by
  rcases course.hasMade.rests_or_performs move with
    rests | ⟨pool, stage, job, running, result, performed⟩
  · rw [rests.holds place]
    refine (or_iff_left ?_).symm
    rintro ⟨source, copied⟩
    exact rests.answered _ (congrArg Prod.snd copied)
  · obtain ⟨origin, copied⟩ := course.copies_of_running copies stage running
    rw [perform_copy copied] at performed
    cases performed
    rw [backends.objects.holds_copyObject job.destination origin place]
    refine or_congr_right ⟨?_, ?_⟩
    · rintro ⟨ok, rfl⟩
      exact ⟨origin, Prod.ext ok rfl⟩
    · rintro ⟨source, answered⟩
      have same : ObjectCall.copyObject place source = .copyObject job.destination origin :=
        ObjectStore.eq_of_answer answered rfl
      cases same
      exact ⟨congrArg Prod.fst answered, rfl⟩

/-- After a move of a removal an object is at a place exactly if it was there before, and the
removal of it has not just ended well. -/
theorem Course.holds_of_removal (course : plan.Course others first history run backends)
    (removes : plan.mode = .remove)
    (move : ActiveRun.Step Backends.answer (run, backends) (run', backends'))
    (place : ObjectAddress) :
    backends'.objects.Holds place ↔ backends.objects.Holds place ∧
      backends.objects.answer (.removeObject place) ≠ (.ok (), backends'.objects) := by
  rcases course.hasMade.rests_or_performs move with
    rests | ⟨pool, stage, job, running, result, performed⟩
  · rw [rests.holds place]
    refine (and_iff_left ?_).symm
    intro removed
    exact rests.answered _ (congrArg Prod.snd removed)
  · rw [perform_removal (course.removal_of_running removes stage running)] at performed
    cases performed
    rw [backends.objects.holds_removeObject job.destination place]
    refine and_congr_right fun _ => not_congr ⟨?_, ?_⟩
    · rintro ⟨ok, rfl⟩
      exact Prod.ext ok rfl
    · intro answered
      have same : ObjectCall.removeObject place = .removeObject job.destination :=
        ObjectStore.eq_of_answer answered rfl
      cases same
      exact ⟨congrArg Prod.fst answered, rfl⟩

/-- What a removal removes, it hits: the only calls of it that remove are those of its jobs. -/
theorem Course.hits_of_removed {result : Except StorageError Unit}
    (course : plan.Course others first history run backends) (removes : plan.mode = .remove)
    (move : ActiveRun.Step Backends.answer (run, backends) (run', backends'))
    (removed : backends.objects.answer (.removeObject place) = (result, backends'.objects)) :
    plan.Hits place := by
  rcases course.hasMade.rests_or_performs move with
    rests | ⟨pool, stage, job, running, outcome, performed⟩
  · exact (rests.answered _ (congrArg Prod.snd removed)).elim
  · have member := course.removal_of_running removes stage running
    rw [perform_removal member] at performed
    cases performed
    have same : ObjectCall.removeObject place = .removeObject job.destination :=
      ObjectStore.eq_of_answer removed rfl
    cases same
    exact ⟨job, member, rfl⟩

/-- A job that was carried out is one that a turn of the run has carried out. -/
theorem Course.performed_of_attempt {attempt : Attempt}
    (course : plan.Course others first history run backends)
    (attempted : attempt ∈ attempts (moments history)) :
    ∃ turn ∈ history, Calling.perform Backends.answer attempt.job.perform turn.before =
      (attempt.result, turn.after) := by
  obtain ⟨moment, worked, executed⟩ := List.mem_filterMap.mp attempted
  obtain ⟨turn, member, moved⟩ := List.mem_filterMap.mp worked
  refine ⟨turn, member, ?_⟩
  obtain ⟨front, former, -, taken⟩ := course.taken member
  cases taken with
  | asked | cancelled => cases moved
  | worked stage move effect =>
    cases moved
    cases effect with
    | internal | called | delivered => cases executed
    | executed tree performed =>
      cases executed
      exact performed

/-- A removal that has come to a good end and was never cancelled has made each of its removals. -/
theorem Course.removes_all {result : RunOutcome}
    (course : plan.Course others first history run backends) (removes : plan.mode = .remove)
    (ended : run.outcome? = some (.ok result))
    (uncancelled : ∀ turn ∈ history, turn.deed ≠ .cancelled) (hit : plan.Hits place) :
    ∃ turn ∈ history, ∃ answer,
      turn.before.objects.answer (.removeObject place) = (answer, turn.after.objects) := by
  rcases course.ending ended with
    ⟨-, ⟨-, turn, member, cancelled⟩ | ⟨error, failed⟩⟩ | ⟨-, pool, earlier, working, complete⟩
  · exact absurd cancelled (uncancelled turn member)
  · cases failed
  · obtain ⟨reachable, going⟩ := working.reachable
    have perm := (reachable.faithful (plan.owes_produce removes)).complete complete going
    obtain ⟨job, member, rfl⟩ := hit
    obtain ⟨done, delivered, rfl⟩ := List.mem_map.mp (perm.mem_iff.mpr member)
    have executed : done ∈ pool.floor.executed := List.mem_append_left _ delivered
    rw [← working.executed] at executed
    obtain ⟨attempt, attempted, rfl⟩ := List.mem_map.mp executed
    obtain ⟨turn, taken, performed⟩ := course.performed_of_attempt attempted
    rw [perform_removal member] at performed
    refine ⟨turn, taken, attempt.result, ?_⟩
    rw [← (Prod.mk.inj performed).1, ← (Prod.mk.inj performed).2]

end SyncPlan

end DatasetSync
