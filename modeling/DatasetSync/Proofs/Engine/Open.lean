import DatasetSync.Proofs.Engine.Writes

/-!
# The engine in open surroundings

The moves of the engine leave it to the object store and to the table of buckets how calls
are answered. In an open execution others may change both at any time: they put objects and
take them away, and they let calls fail or succeed. A look may thus find any listing, and
every single job any result. The documents are not touched this way; whoever writes them does
so in a move.
-/

namespace DatasetSync.Engine

/-- The engine with other objects, other failures and other buckets around it. -/
def among (engine : Engine) (objects : ObjectStore) (table : BucketTable) : Engine :=
  { engine with backends := { engine.backends with objects, table } }

/-- The engine has come from one state to another by a list of moves, oldest first, and
between the moves others have changed what is around it. -/
inductive OpenExecution (policy : Policy) (start : Engine) : List Transition → Engine → Prop where
  | start : OpenExecution policy start [] start
  | step {history : List Transition} {before after : Engine} {event : Event}
      (past : OpenExecution policy start history before) (move : Step policy before event after) :
      OpenExecution policy start (history ++ [⟨before, event, after⟩]) after
  | change {history : List Transition} {engine : Engine} (objects : ObjectStore)
      (table : BucketTable) (past : OpenExecution policy start history engine) :
      OpenExecution policy start history (engine.among objects table)

variable {policy : Policy} {history past recent : List Transition}
  {start engine middle finish : Engine}

/-- An execution in which nobody changes anything else is an open one. So what is proved of open
executions holds of all. -/
theorem Execution.open (execution : Execution policy start history finish) :
    OpenExecution policy start history finish := by
  induction execution with
  | start => exact .start
  | step past move ih => exact ih.step move

/-- Two open executions are put together where the one ends and the other one starts. The induction
is on the second one. -/
theorem OpenExecution.append (first : OpenExecution policy start past middle)
    (second : OpenExecution policy middle recent finish) :
    OpenExecution policy start (past ++ recent) finish := by
  induction second with
  | start =>
    rw [List.append_nil]
    exact first
  | step earlier move ih =>
    rw [← List.append_assoc]
    exact ih.step move
  | change objects table earlier ih => exact ih.change objects table

/-- A change around the engine keeps what was planned: plans are made of versions, and not of
objects or sources. -/
theorem Planned.among {document : Document} {plan : SyncPlan} {origin : RunOrigin}
    (planned : Planned policy history engine document plan origin) (objects : ObjectStore)
    (table : BucketTable) :
    Planned policy history (engine.among objects table) document plan origin := by
  cases planned with
  | look present past leads => exact .look present past leads
  | launched present past leads => exact .launched present past leads
  | copy sizing same => exact .copy sizing same
  | removal deleted sizing same => exact .removal deleted sizing same

/-- A change around the engine keeps it coherent: neither looks nor runs take part in it. -/
theorem Coherent.among (coherent : Coherent policy history engine) (objects : ObjectStore)
    (table : BucketTable) : Coherent policy history (engine.among objects table) where
  begun := coherent.begun
  follows := coherent.follows
  unasked := coherent.unasked
  waits := coherent.waits
  made := coherent.made
  unmade := coherent.unmade
  planned number run found := by
    obtain ⟨document, seen, planned⟩ := coherent.planned number run found
    exact ⟨document, seen, planned.among objects table⟩

/-- The engine is coherent after every open execution from an engine that is not at work. -/
theorem coherent_of_openExecution {backends : Backends} {registry : Registry}
    {seen : List Document}
    (execution : OpenExecution policy (idle backends registry seen) history finish) :
    Coherent policy history finish := by
  induction execution with
  | start => exact coherent_idle backends registry seen
  | step past move ih => exact ih.step move
  | change objects table past ih => exact ih.among objects table

end DatasetSync.Engine
