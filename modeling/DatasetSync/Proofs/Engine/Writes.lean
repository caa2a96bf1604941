import DatasetSync.Proofs.Engine.Invariant

/-!
# Who writes documents

The document store changes by what other clients write, and by the calls that looks and
concluding runs make; nothing else touches it. So every move of the engine is one
succession of versions, and what holds along successions holds along executions: tokens
name versions, and no version comes back.
-/

namespace DatasetSync.Engine

variable {policy : Policy} {start middle before after finish : Engine} {event : Event}
  {past recent history : List Transition}

/-- The call on the document store that the engine makes in a move. -/
def documentCall? (engine : Engine) : Event → Option DocumentCall
  | .asked _ (.call (.document call)) _ => some call
  | .ran number => (engine.runs[number]?).bind fun run => run.active.documentCall?
  | _ => none

/-- The document store after a move. -/
def documentsAfter (engine : Engine) : Event → DocumentStore
  | .wrote write => engine.backends.documents.write engine.backends.now write
  | event => engine.backends.documents.afterCall (engine.documentCall? event)

/-- A move does to the documents what the writing client does, or what the call of the
engine does, and nothing else. -/
theorem Coherent.documents (coherent : Coherent policy history before)
    (move : Step policy before event after) :
    after.backends.documents = before.documentsAfter event := by
  cases move with
  | @call look document call next asking => cases call <;> rfl
  | @run number run active backends found move =>
    have moved := (coherent.made number run found).documents move
    simpa [documentsAfter, documentCall?, found] using moved
  | _ => rfl

/-- A move is one succession of versions. -/
theorem Coherent.succession (coherent : Coherent policy history before)
    (keyed : before.backends.documents.WellKeyed) (move : Step policy before event after) :
    DocumentStore.Succession before.backends.documents after.backends.documents := by
  have called : ∀ call? : Option DocumentCall, DocumentStore.Succession before.backends.documents
      (before.backends.documents.afterCall call?) := by
    intro call?
    cases call? with
    | none => exact .unchanged (Nat.le_refl _) fun _ => rfl
    | some call => exact DocumentStore.succession_answer keyed call
  rw [coherent.documents move]
  unfold documentsAfter
  split
  · exact DocumentStore.succession_write keyed _ _
  · exact called _

/-- The last move of an execution. -/
theorem Execution.last {transition : Transition}
    (execution : Execution policy start (past ++ [transition]) finish) :
    Execution policy start past transition.before ∧
      Step policy transition.before transition.event transition.after ∧
        transition.after = finish := by
  generalize whole : past ++ [transition] = history at execution
  cases execution with
  | start => simp at whole
  | step earlier move =>
    obtain ⟨rfl, same⟩ := List.append_inj' whole rfl
    cases same
    exact ⟨earlier, move, rfl⟩

/-- An execution is cut in two at any place of its history. -/
theorem Execution.split (execution : Execution policy start (past ++ recent) finish) :
    ∃ middle, Execution policy start past middle ∧ Execution policy middle recent finish := by
  induction recent using List.reverseRecOn generalizing finish with
  | nil =>
    rw [List.append_nil] at execution
    exact ⟨finish, execution, .start⟩
  | append_singleton recent transition ih =>
    rw [← List.append_assoc] at execution
    obtain ⟨earlier, move, rfl⟩ := execution.last
    obtain ⟨middle, first, second⟩ := ih earlier
    exact ⟨middle, first, second.step move⟩

/-- Two executions are put together. -/
theorem Execution.append (first : Execution policy start past middle)
    (second : Execution policy middle recent finish) :
    Execution policy start (past ++ recent) finish := by
  induction second with
  | start => rwa [List.append_nil]
  | step earlier move ih =>
    rw [← List.append_assoc]
    exact ih.step move

/-- An execution around one of its moves. -/
theorem Execution.around {transition : Transition}
    (execution : Execution policy start (past ++ transition :: recent) finish) :
    Execution policy start past transition.before ∧
      Step policy transition.before transition.event transition.after ∧
        Execution policy transition.after recent finish := by
  rw [List.append_cons] at execution
  obtain ⟨middle, first, second⟩ := execution.split
  obtain ⟨earlier, move, rfl⟩ := first.last
  exact ⟨earlier, move, second⟩

/-- A run that is there stays there and keeps its plan and its origin. -/
theorem Execution.run_kept {backends : Backends} {registry : Registry} {seen : List Document}
    (first : Execution policy (idle backends registry seen) past middle)
    (second : Execution policy middle recent finish) {number : Nat} {run : EngineRun}
    (found : middle.runs[number]? = some run) :
    ∃ run', finish.runs[number]? = some run' ∧ run'.active.plan = run.active.plan ∧
      run'.origin = run.origin := by
  induction second with
  | start => exact ⟨run, found, rfl, rfl⟩
  | step earlier move ih =>
    obtain ⟨former, present, plan, origin⟩ := ih
    have coherent := coherent_of_execution (first.append earlier)
    obtain ⟨run', present', moved⟩ := move.run_present present
    obtain ⟨samePlan, sameOrigin, -⟩ := moved.keeps present (coherent.made number former present)
    exact ⟨run', present', samePlan.trans plan, sameOrigin.trans origin⟩

section Versions

variable {backends : Backends} {registry : Registry} {seen : List Document}

/-- Along an execution the versions of the store stay sound. -/
theorem Execution.sound (sound : backends.documents.Sound)
    (execution : Execution policy (idle backends registry seen) history finish) :
    finish.backends.documents.Sound := by
  induction execution with
  | start => exact sound
  | step past move ih =>
    exact ih.succession ((coherent_of_execution past).succession ih.keyed move)

/-- Along an execution no version comes back. -/
theorem Execution.later (sound : backends.documents.Sound)
    (first : Execution policy (idle backends registry seen) past middle)
    (second : Execution policy middle recent finish) :
    DocumentStore.Later middle.backends.documents finish.backends.documents := by
  induction second with
  | start => exact .refl _
  | step earlier move ih =>
    have whole := first.append earlier
    have succession := (coherent_of_execution whole).succession (whole.sound sound).keyed move
    exact ih.trans succession.later

/-- What a run reads lies under the key that it asks for. -/
theorem Execution.key_of_reading (sound : backends.documents.Sound)
    (execution : Execution policy (idle backends registry seen) history finish) {number : Nat}
    {plan : SyncPlan} {latest : Document}
    (reading : plan.reading (some latest) ∈ runExchanges number history) :
    latest.key = plan.document.key := by
  obtain ⟨past, read, recent, rfl, -, run, next, -, -, answered⟩ :=
    exists_of_mem_runExchanges reading
  obtain ⟨earlier, -, -⟩ := execution.around
  have found : read.before.backends.documents.get? plan.document.key = some latest :=
    Except.ok.inj answered
  exact (earlier.sound sound).keyed _ _ found

end Versions

end DatasetSync.Engine
