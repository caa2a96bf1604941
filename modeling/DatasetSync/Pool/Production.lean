import DatasetSync.Call

/-!
# Producers of jobs

A producer is a program that makes calls and hands jobs to a pool one by one. It can see
that the work is to stop; a job that is handed over then is refused. A producer that ends
with an error has given up, and the work stops with it.
-/

namespace DatasetSync.Pool

/-- What a producer asks. -/
inductive Production (J : Type) where
  | call (call : Call)
  /-- Is the work to stop? -/
  | isStopping
  /-- Hand over a job, waiting for room; the answer tells whether it was taken. -/
  | queue (job : J)

/-- What a producer is answered. -/
abbrev Production.Answer {J : Type} : Production J → Type
  | .call made => made.Answer
  | .isStopping => Bool
  | .queue _ => Bool

/-- The interface of producers. -/
abbrev Productions (J : Type) : Interface := ⟨Production J, Production.Answer⟩

/-- A program that produces jobs and ends with a value. -/
abbrev Producing (J : Type) := Program (Productions J)

/-- A producer: it ends well or gives up with an error. -/
abbrev Producer (J E : Type) := Producing J (Except E Unit)

namespace Producing

variable {J : Type}

/-- Carry out calls. -/
def calling {α : Type} (program : Calling α) : Producing J α :=
  program.run fun request =>
    Program.request (Productions J) (.call request)

def isStopping : Producing J Bool :=
  Program.request (Productions J) .isStopping

def queue (job : J) : Producing J Bool :=
  Program.request (Productions J) (.queue job)

end Producing

end DatasetSync.Pool
