import DatasetSync.Proofs.Pool.Stations

/-!
# Pools that do all that is asked of them

Which jobs a producer hands over may depend on what it is answered. What is known of it is a
property of the whole list of its jobs, and that it hands over such a list unless it is stopped
or gives up. A pool that ends well without having been cancelled has then carried out the jobs
of one such list, each of them once.
-/

namespace DatasetSync.Pool

variable {J R E α : Type}

/-- What one more item adds to the results of those before it: its own result, if it has one. -/
theorem filterMap_snoc {β : Type} (result? : α → Option β) (items : List α) (item : α) :
    (items ++ [item]).filterMap result? = items.filterMap result? ++ (result? item).toList := by
  rw [List.filterMap_append, List.filterMap_cons, List.filterMap_nil]
  cases result? item <;> rfl

/-- A producer that is not stopped and does not give up hands over a list of jobs of a given
kind and then ends. -/
def Delivers : (List J → Prop) → Producer J E → Prop
  | whole, .done (.ok ()) => whole []
  | _, .done (.error _) => True
  | whole, .ask (.call _) next => ∀ answer, Delivers whole (next answer)
  | whole, .ask .isStopping next => Delivers whole (next false)
  | whole, .ask (.queue job) next => Delivers (fun later => whole (job :: later)) (next true)

/-- A producer that hands over lists of one kind hands over lists of any wider kind. -/
theorem Delivers.imp {whole wider : List J → Prop} {producer : Producer J E}
    (delivers : Delivers whole producer) (weaker : ∀ jobs, whole jobs → wider jobs) :
    Delivers wider producer := by
  induction producer generalizing whole wider with
  | done result =>
    cases result with
    | error error => trivial
    | ok => exact weaker [] delivers
  | ask request next ih =>
    cases request with
    | call call => exact fun answer => ih answer (delivers answer) weaker
    | isStopping => exact ih false delivers weaker
    | queue job => exact ih true delivers fun later => weaker (job :: later)

/-- Calls hand over nothing, so that a producer hands over what it hands over after them, however
they were answered. -/
theorem delivers_calling {whole : List J → Prop} {program : Calling α} {next : α → Producer J E}
    (after : ∀ calls value, program.Leads calls (.done value) → Delivers whole (next value)) :
    Delivers whole ((Producing.calling program).bind next) :=
  Producing.calling_bind_of (fun _ _ always => always) after

/-- A pool of which the producer hands over a list of a given kind: no job is lost, and while
the work goes on, none was dropped and the rest of such a list is still to come. -/
structure State.Honors (whole : List J → Prop) (state : State J R E) : Prop where
  conserved : state.floor.Conserved
  going : state.isStopping = false → state.floor.dropped = [] ∧
    Delivers (fun later => whole (state.floor.accepted ++ later)) state.producer

/-- Every move of a pool keeps what is to come of the list. Where the producer hands a job over, the
job goes from what is to come to what was accepted; all other moves leave both as they are. -/
theorem State.Honors.step {sizing : Sizing} {whole : List J → Prop} {before after : State J R E}
    {event : Event J R} (honors : before.Honors whole) (move : Step sizing before event after) :
    after.Honors whole := by
  refine ⟨move.conserved honors.conserved, fun still => ?_⟩
  obtain ⟨former, dropped, jobs, produced, accepted⟩ := move.going still
  obtain ⟨none, delivers⟩ := honors.going former
  refine ⟨dropped.trans none, ?_⟩
  rw [accepted]
  revert delivers
  generalize before.producer = producer, after.producer = producer' at produced
  intro delivers
  cases produced with
  | nothing => simpa using delivers
  | called answer => simpa using delivers answer
  | observed => simpa [Delivers] using delivers
  | handed => simpa [Delivers] using delivers

/-- What a pool can reach keeps what is to come of the list. The induction is on the moves that have
led there. -/
theorem Reachable.honors {sizing : Sizing} {whole : List J → Prop} {producer : Producer J E}
    {cancelled : Bool} {state : State J R E}
    (reachable : Reachable sizing (.initial producer cancelled) state)
    (delivers : Delivers whole producer) : state.Honors whole := by
  induction reachable with
  | start => exact ⟨Floor.conserved_empty, fun _ => ⟨rfl, delivers⟩⟩
  | step earlier move ih => exact ih.step move

/-- A pool that ended well and was not cancelled has carried out the jobs of one list of the
kind that its producer hands over. -/
theorem State.Honors.complete {whole : List J → Prop} {state : State J R E}
    (honors : state.Honors whole) (ended : state.ended? = some (.ok ()))
    (uncancelled : state.cancelled = false) :
    ∃ jobs, whole jobs ∧ (state.floor.delivered.map Prod.fst).Perm jobs := by
  obtain ⟨kept, delivers⟩ := honors.going (going_of_ended ended uncancelled)
  rw [(ended_ok ended).1] at delivers
  have accepted : whole (state.floor.accepted ++ []) := delivers
  rw [List.append_nil] at accepted
  exact ⟨state.floor.accepted, accepted, delivered_perm ended honors.conserved kept⟩

/-- The completion that was handed over in a move, if there was one. -/
def Event.delivery? : Event J R → Option (J × R)
  | .delivered job result => some (job, result)
  | _ => none

/-- The job that was carried out in a move, with its result, if there was one. -/
def Event.execution? : Event J R → Option (J × R)
  | .executed job result => some (job, result)
  | _ => none

/-- The completions that have been handed over are those of the moves: a move hands over at most
one. -/
theorem Step.delivered {sizing : Sizing} {before after : State J R E} {event : Event J R}
    (move : Step sizing before event after) :
    after.floor.delivered = before.floor.delivered ++ event.delivery?.toList := by
  cases move with
  | deliver job result rest first => simp [Floor.deliver, first, Event.delivery?]
  | start going idle waiting =>
    unfold Floor.start
    split <;> simp [Event.delivery?]
  | finish position job result running => simp [Floor.finish, running, Event.delivery?]
  | call | observe | enqueue | refuse | discard | cancel =>
    simp [Event.delivery?, Floor.enqueue, Floor.discard]

/-- The jobs that have been carried out are those of the moves, in the same order. -/
theorem Step.executed {sizing : Sizing} {before after : State J R E} {event : Event J R}
    (move : Step sizing before event after) :
    after.floor.executed = before.floor.executed ++ event.execution?.toList := by
  cases move with
  | deliver job result rest first => simp [Floor.executed, Floor.deliver, first, Event.execution?]
  | start going idle waiting =>
    unfold Floor.start
    split <;> simp [Floor.executed, Event.execution?]
  | finish position job result running =>
    simp [Floor.executed, Floor.finish, running, Event.execution?]
  | call | observe | enqueue | refuse | discard | cancel =>
    simp [Floor.executed, Event.execution?, Floor.enqueue, Floor.discard]

/-- A job that is carried out was accepted, as long as no job is lost or doubled on the floor: it
was at work, and jobs at work are among the accepted ones. -/
theorem Step.execution_accepted {sizing : Sizing} {before after : State J R E} {job : J}
    {result : R} (move : Step sizing before (.executed job result) after)
    (conserved : before.floor.Conserved) : job ∈ before.floor.accepted := by
  cases move with
  | finish position job result running =>
    refine conserved.mem_iff.mpr ?_
    simp [Floor.stations, List.mem_of_getElem? running]

end DatasetSync.Pool
