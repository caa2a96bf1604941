import DatasetSync.Proofs.Controller.Failure
import DatasetSync.Proofs.Engine.Snapshots
import DatasetSync.Proofs.Engine.StaleLook
import DatasetSync.Proofs.Engine.Supersession

/-!
# What a failed look leaves behind

A look that fails, or that is to be made again since its removal run has failed, is made again
later on the document as it is then. So it must not have touched it. Objects may be gone by then,
but no move that was made for the look has changed a stored document: neither a call of its own,
nor a turn of the run that it has waited for. What is stored is what others have written, on
living and on deleted documents alike, whatever the object store holds and refuses.

A run may well write in the name of a look, since it clears the finalizers of a document that it
finds deleted. But then it ends well, and the look does not fail.
-/

namespace DatasetSync

/-- A status is refused only because it comes too late: the document was written in between, or it
is gone. -/
theorem DocumentStore.error_of_patchStatus {store : DocumentStore} {key : QualifiedName}
    {token : String} {status : Status} {error : StoreError}
    (refused : (store.patchStatus key token status).1 = .error error) :
    error = .conflict key ∨ error = .notFound key := by
  unfold patchStatus at refused
  split at refused
  · cases refused
    exact .inr rfl
  · split at refused
    · cases refused
      exact .inl rfl
    · cases refused

/-- A run that ends in an error has written nothing while it was concluded: after its one write
nothing can fail any more. -/
theorem ActiveRun.HasMade.silent_of_error {run : ActiveRun} {trail : List (Exchange Calls)}
    {error : SyncError} (made : run.HasMade trail) (ended : run.outcome? = some (.error error)) :
    ∀ exchange ∈ trail, ¬ exchange.Writes := by
  have stage := outcome?_eq_some_iff.mp ended
  cases made with
  | working stage' => cases stage.symm.trans stage'
  | concluding stage' leads =>
    cases stage.symm.trans stage'
    rcases SyncPlan.ending_of_leads leads with ⟨rfl, -⟩ | ⟨-, -, ending⟩
    · simp
    · exact ending.silent (by simp) (by simp)

namespace Engine

variable {policy : Policy} {history : List Transition} {before after finish : Engine}
  {event : Event} {look : Nat} {document : Document} {result : Except ReconcileError Next}

/-- In the move no stored document has changed. -/
def Transition.KeepsDocuments (transition : Transition) : Prop :=
  ∀ key, transition.after.stored? key = transition.before.stored? key

/-- The move was made for a look: the look began, was answered or started a run that it waits
for, or such a run took a turn. -/
inductive Transition.MadeFor (transition : Transition) (look : Nat) : Prop
  | began (document : Document) (event : transition.event = .began look document)
  | synced (plan : SyncPlan) (event : transition.event = .synced look plan)
  | asked (control : Control) (answer : control.Answer)
      (event : transition.event = .asked look control answer)
  | ran (number : Nat) (run : EngineRun) (event : transition.event = .ran number)
      (found : transition.before.runs[number]? = some run) (origin : run.origin = .look look)

/-- A call of a look is answered by the backends as they are before the move. -/
theorem Step.answer_of_asked {call : Call} {answer : call.Answer}
    (move : Step policy before event after) (asked : event = .asked look (.call call) answer) :
    (before.backends.answer call).1 = answer := by
  cases move with
  | call asking =>
    injection asked with sameLook sameControl sameAnswer
    cases sameControl
    exact eq_of_heq sameAnswer
  | _ => cases asked

/-- The call of a look that is no write, or a write that was refused, changes no document. -/
theorem Step.keepsDocuments_of_asked {control : Control} {answer : control.Answer}
    (move : Step policy before (.asked look control answer) after)
    (fruitless : Exchange.IsFruitless ⟨control, answer⟩) :
    (⟨before, .asked look control answer, after⟩ : Transition).KeepsDocuments := by
  intro key
  cases move with
  | call asking => exact Backends.get?_of_not_writes fruitless key
  | resume | launch | stop | await => rfl

/-- A turn of a run in which it writes nothing changes no document: while its pool is at work it
makes no call on documents at all. -/
theorem Coherent.keepsDocuments_of_ran (coherent : Coherent policy history before) {number : Nat}
    (move : Step policy before (.ran number) after)
    (silent : ∀ exchange,
      (⟨before, .ran number, after⟩ : Transition).runExchange? number = some exchange →
        ¬ exchange.Writes) :
    (⟨before, .ran number, after⟩ : Transition).KeepsDocuments := by
  intro key
  cases move with
  | @run _ run active backends found move =>
    have silent' : ∀ exchange, run.active.exchange? Backends.answer before.backends = some exchange →
        ¬ exchange.Writes := fun exchange made => silent exchange ((runExchange?_own found).trans made)
    have documents := (coherent.made number run found).documents move
    change backends.documents.get? key = before.backends.documents.get? key
    rw [documents]
    unfold ActiveRun.documentCall?
    split
    · rename_i call next stage
      have made : run.active.exchange? Backends.answer before.backends = some
          ⟨.document call, (before.backends.answer (.document call)).1⟩ := by
        simp only [ActiveRun.exchange?, stage]
      exact @Backends.get?_of_not_writes (.document call) before.backends (silent' _ made) key
    · rfl

/-- A look waits for each run that it has started, or it has heard of its end. -/
def Attended (history : List Transition) (engine : Engine) : Prop :=
  ∀ (number : Nat) (run : EngineRun) (look : Nat), engine.runs[number]? = some run →
    run.origin = .look look →
      (∃ document plan next, engine.looks[look]? = some ⟨document, .waiting plan number next⟩) ∨
      ∃ outcome, run.active.outcome? = some outcome ∧
        (⟨.sync run.active.plan, outcome⟩ : Exchange Controls) ∈ exchanges look history

/-- A look that waits for a run goes on waiting, or the run has ended and the look hears of it. -/
theorem Coherent.attended_of_waiting (coherent : Coherent policy history before)
    (move : Step policy before event after) {number : Nat} {run : EngineRun} {plan : SyncPlan}
    {next : Except SyncError RunOutcome → Controlling (Except ReconcileError Next)}
    (waiting : before.looks[look]? = some ⟨document, .waiting plan number next⟩)
    (found : before.runs[number]? = some run) :
    (∃ plan next, after.looks[look]? = some ⟨document, .waiting plan number next⟩) ∨
      ∃ outcome, run.active.outcome? = some outcome ∧
        event = .asked look (.sync run.active.plan) outcome := by
  obtain ⟨stage', present⟩ := move.lookMove.present waiting
  rcases move.lookMove.cases present with ⟨stage, former, how⟩ | ⟨rfl, -⟩
  · rw [waiting] at former
    cases former
    rcases how with ⟨-, rfl⟩ | ⟨_, _, impossible, -⟩ | ⟨control, next', answer, rest, asked, -⟩
    · exact .inl ⟨plan, next, present⟩
    · cases impossible
    · cases rest
      obtain rfl := Event.eq_of_exchange? asked
      cases move with
      | resume waiting' found' ended =>
        rw [waiting] at waiting'
        cases waiting'
        rw [found] at found'
        cases found'
        obtain ⟨run', found'', -, rfl⟩ := coherent.waits look number document plan next waiting
        rw [found] at found''
        cases found''
        exact .inr ⟨answer, ended, rfl⟩
  · exact absurd (List.getElem?_eq_some_iff.mp waiting).1 (Nat.lt_irrefl _)

/-- Every move keeps the runs of looks attended: a run of a look is started where the look begins to
wait for it, and moves of others do not concern it. -/
theorem Attended.step (attended : Attended history before)
    (coherent : Coherent policy history before) (move : Step policy before event after) :
    Attended (history ++ [⟨before, event, after⟩]) after := by
  intro number run' look found origin
  rcases move.run_cases found with ⟨run, former, moved⟩ | ⟨rfl, -, plan, origin', start, rfl⟩
  · have own : run.origin = .look look := moved.origin.symm.trans origin
    obtain ⟨plan, -, -⟩ := moved.keeps former (coherent.made number run former)
    rw [plan, exchanges_concat]
    rcases attended number run look former own with ⟨document, plan, next, waiting⟩ |
      ⟨outcome, ended, heard⟩
    · rcases coherent.attended_of_waiting move waiting former with ⟨plan, next, still⟩ |
        ⟨outcome, ended, rfl⟩
      · exact .inl ⟨document, plan, next, still⟩
      · refine .inr ⟨outcome, moved.outcome ended, List.mem_append_right _ ?_⟩
        simp [Event.exchange?]
    · exact .inr ⟨outcome, moved.outcome ended, List.mem_append_left _ heard⟩
  · cases origin
    cases start with
    | synced asking =>
      cases move with
      | @sync _ document plan next asking =>
        have inside : look < before.looks.length := (List.getElem?_eq_some_iff.mp asking).1
        exact .inl ⟨document, plan, next, by simp [withLook, withRun, inside]⟩

/-- The runs of looks are attended in every open execution, by induction on its moves; changes
around the engine do not matter. -/
theorem OpenExecution.attended {backends : Backends} {registry : Registry} {seen : List Document}
    (execution : OpenExecution policy (idle backends registry seen) history finish) :
    Attended history finish := by
  induction execution with
  | start =>
    intro number run look found
    cases found
  | step past move ih => exact ih.step (coherent_of_openExecution past) move
  | change objects table past ih => exact ih

/-- A move of an open execution is made by a coherent engine, so that what is known of coherent
engines is known at every move of a history. -/
theorem OpenExecution.move_of_mem {backends : Backends} {registry : Registry}
    {seen : List Document} {transition : Transition}
    (execution : OpenExecution policy (idle backends registry seen) history finish)
    (member : transition ∈ history) :
    (∃ past, Coherent policy past transition.before) ∧
      Step policy transition.before transition.event transition.after := by
  induction execution with
  | start => cases member
  | step past move ih =>
    rcases List.mem_append.mp member with former | now
    · exact ih former
    · obtain rfl := List.mem_singleton.mp now
      exact ⟨⟨_, coherent_of_openExecution past⟩, move⟩
  | change objects table past ih => exact ih member

/-- A run that took a turn in an open execution is there at its end, and has the same origin. -/
theorem OpenExecution.run_of_mem {backends : Backends} {registry : Registry}
    {seen : List Document} {transition : Transition} {number : Nat} {run : EngineRun}
    (execution : OpenExecution policy (idle backends registry seen) history finish)
    (member : transition ∈ history) (found : transition.before.runs[number]? = some run) :
    ∃ run', finish.runs[number]? = some run' ∧ run'.origin = run.origin := by
  induction execution with
  | start => cases member
  | step past move ih =>
    rcases List.mem_append.mp member with former | now
    · obtain ⟨run', present, same⟩ := ih former
      obtain ⟨later, present', moved⟩ := move.run_present present
      exact ⟨later, present', moved.origin.trans same⟩
    · obtain rfl := List.mem_singleton.mp now
      obtain ⟨later, present, moved⟩ := move.run_present found
      exact ⟨later, present, moved.origin⟩
  | change objects table past ih => exact ih member

/-- A status that a look wants to write is refused by the store only because it comes too late. -/
theorem OpenExecution.refusesLate {backends : Backends} {registry : Registry}
    {seen : List Document}
    (execution : OpenExecution policy (idle backends registry seen) history finish) (look : Nat) :
    Policy.RefusesLate (exchanges look history) := by
  intro key token status error exchanged
  obtain ⟨transition, member, asked⟩ := mem_exchanges_iff.mp exchanged
  obtain ⟨-, move⟩ := execution.move_of_mem member
  have refused : (transition.before.backends.documents.patchStatus key token status).1 =
      .error error := move.answer_of_asked asked
  rcases DocumentStore.error_of_patchStatus refused with rfl | rfl
  · exact .inl ⟨key, rfl⟩
  · exact .inr ⟨key, rfl⟩

/-- A look that has failed, on a version that was read from the store, has brought nothing
about. -/
theorem OpenExecution.isFruitless {backends : Backends} {registry : Registry}
    (sound : backends.documents.Sound)
    (execution : OpenExecution policy (idle backends registry []) history finish)
    (ended : finish.looks[look]? = some ⟨document, .asking (.done result)⟩)
    (failed : Policy.HasFailed result) :
    ∀ exchange ∈ exchanges look history, exchange.IsFruitless := by
  have coherent := coherent_of_openExecution execution
  have seen : document ∈ finish.seen := (coherent.begun look document _ ended).1
  obtain ⟨number, -, token⟩ :=
    ((snapshots_of_openExecution sound execution).seen document seen).numbered
  refine Policy.isFruitless_of_hasFailed failed ?_ (execution.refusesLate look)
    (coherent.follows look document _ ended)
  rw [token]
  exact Option.some_ne_none _

/-- A look that has failed, or that asks to be made again since its removal run has failed, has
written nothing: no stored document was changed by a call of the look or by a turn of a run that it
has waited for, and it has launched no run that could write later on. What is stored is hence what
others have written.

A run that the look has waited for has ended in an error, as the look has heard, and by this it has
written nothing either. -/
theorem failed_look_writes_nothing {backends : Backends} {registry : Registry}
    (sound : backends.documents.Sound)
    (execution : OpenExecution policy (idle backends registry []) history finish)
    (ended : finish.looks[look]? = some ⟨document, .asking (.done result)⟩)
    (failed : Policy.HasFailed result) :
    (∀ transition ∈ history, transition.MadeFor look → transition.KeepsDocuments) ∧
      ∀ transition ∈ history, ∀ key plan id, transition.event ≠ .asked look (.launch key plan) id := by
  have fruitless := execution.isFruitless sound ended failed
  refine ⟨fun transition member made => ?kept, fun transition member key plan id asked => ?launched⟩
  case launched =>
    exact fruitless ⟨.launch key plan, id⟩ (mem_exchanges_iff.mpr ⟨transition, member, asked⟩)
  case kept =>
    obtain ⟨⟨past, coherent⟩, move⟩ := execution.move_of_mem member
    cases made with
    | began version event | synced plan event =>
      intro key
      have documents := coherent.documents move
      rw [event] at documents
      exact congrArg (DocumentStore.get? · key) documents
    | asked control answer asked =>
      obtain ⟨before, event, after⟩ := transition
      cases asked
      exact move.keepsDocuments_of_asked
        (fruitless _ (mem_exchanges_iff.mpr ⟨_, member, rfl⟩))
    | ran number run ran found origin =>
      obtain ⟨run', present, same⟩ := execution.run_of_mem member found
      obtain ⟨before, event, after⟩ := transition
      cases ran
      rcases execution.attended number run' look present (same.trans origin) with
        ⟨version, plan, next, waiting⟩ | ⟨outcome, finished, heard⟩
      · rw [ended] at waiting
        cases waiting
      · obtain ⟨error, rfl⟩ := fruitless _ heard
        have made := (coherent_of_openExecution execution).made number run' present
        have silent := made.silent_of_error finished
        refine coherent.keepsDocuments_of_ran move fun exchange asked => silent exchange ?_
        exact List.mem_filterMap.mpr ⟨_, member, asked⟩

/-- The shrunk document, and a store that refuses every call on its bucket. -/
def lockedBackends : Backends :=
  { shrunkBackends with objects := shrunkBackends.objects.failBucket "team-a" "access denied" }

/-- A look wants to remove the object of a file that is no longer declared, and cannot use its
bucket. It asks to be made again; what is stored is what another client has written meanwhile. -/
theorem failed_look_writes_nothing_amid_bump : ∃ history finish,
    OpenExecution default (idle lockedBackends .empty []) history finish ∧
    finish.looks[0]? = some ⟨shrunkVersion, .asking (.done (.ok (.requeue 0)))⟩ ∧
    (∀ transition ∈ history, transition.MadeFor 0 → transition.KeepsDocuments) ∧
    (∀ transition ∈ history, ∀ key plan id,
      transition.event ≠ .asked 0 (.launch key plan) id) ∧
    finish.stored? shrunkVersion.key = some (DocumentStore.withToken shrunkVersion "2") := by
  have read : Execution default (idle lockedBackends .empty []) _ _ :=
    Execution.start.step (@Step.read default _ shrunkVersion.key shrunkVersion rfl)
  have begun := read.step (@Step.begin default _ shrunkVersion List.mem_cons_self)
  have clocked := begun.step (@Step.call default _ 0 shrunkVersion .clock _ rfl)
  have synced := clocked.step (@Step.sync default _ 0 shrunkVersion _ _ rfl)
  have bumped := synced.step (.write (.bump shrunkVersion.key))
  have observed := bumped.step
    (@Step.run default _ 0 _ _ _ rfl (.work (.observe _) (.internal _ _)))
  have refused := observed.step
    (@Step.run default _ 0 _ _ _ rfl (.work (.call _ _ _) (.called _ _ _)))
  have ended := refused.step (@Step.run default _ 0 _ _ _ rfl (.conclude _ _ rfl))
  have resumed := ended.step (@Step.resume default _ 0 0 shrunkVersion _ _ _ _ rfl rfl rfl)
  have sound : lockedBackends.documents.Sound :=
    DocumentStore.sound_empty.succession (DocumentStore.succession_write
      DocumentStore.sound_empty.keyed "2024-05-01T00:00:00+00:00" (.insert shrunkDocument))
  obtain ⟨kept, unlaunched⟩ := @failed_look_writes_nothing _ _ _ 0 shrunkVersion
    (.ok (.requeue 0)) _ _ sound resumed.open rfl trivial
  exact ⟨_, _, resumed.open, rfl, kept, unlaunched, rfl⟩

end Engine

end DatasetSync
