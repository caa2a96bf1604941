import DatasetSync.Proofs.Pool.Balance

/-!
# What passes between a producer and its surroundings

The trail of a producer is read in parts: the calls that it made, the jobs that were taken from it,
and whether it was told to leave off. A producer is told so by an answer: it sees that the work is
to stop, or a job is refused. Of the calls, those on the resolver and those on the object store are
told apart.

A passage is the part of a trail in which one piece of work is begun, prepared by calls, and handed
over.
-/

namespace DatasetSync

/-- What the resolver was asked and how it answered, if it was asked. -/
def Exchange.resolution? :
    Exchange Calls → Option ((Reference × String) × Except StoreError String)
  | ⟨.resolve source fallback, answer⟩ => some ((source, fallback), answer)
  | _ => none

/-- Whether the object store was asked. -/
def Exchange.asksObjects (exchange : Exchange Calls) : Bool :=
  match exchange.request with
  | .object _ => true
  | _ => false

namespace Pool

variable {J α β : Type}

/-- An exchange of a call, seen as an exchange of a producer. -/
def produced (exchange : Exchange Calls) : Exchange (Productions J) :=
  ⟨.call exchange.request, exchange.answer⟩

/-- The call of an exchange, if it is one. -/
def call? : Exchange (Productions J) → Option (Exchange Calls)
  | ⟨.call call, answer⟩ => some ⟨call, answer⟩
  | _ => none

/-- The job that was handed over and taken, if one was. -/
def acceptance? : Exchange (Productions J) → Option J
  | ⟨.queue job, true⟩ => some job
  | _ => none

/-- Whether a producer is told to leave off. -/
def interrupts : Exchange (Productions J) → Bool
  | ⟨.call _, _⟩ => false
  | ⟨.isStopping, stopping⟩ => stopping
  | ⟨.queue _, accepted⟩ => !accepted

/-- The calls that a producer has made. -/
def called (trail : List (Exchange (Productions J))) : List (Exchange Calls) :=
  trail.filterMap call?

/-- What a producer has asked the resolver, and how it was answered. -/
def resolutions (trail : List (Exchange (Productions J))) :
    List ((Reference × String) × Except StoreError String) :=
  (called trail).filterMap Exchange.resolution?

/-- How the resolver has answered a producer. -/
def answers (trail : List (Exchange (Productions J))) : List (Except StoreError String) :=
  (resolutions trail).map Prod.snd

/-- The calls on the object store that a producer has made. -/
def objectCalls (trail : List (Exchange (Productions J))) : List (Exchange Calls) :=
  (called trail).filter Exchange.asksObjects

/-- The jobs that were taken from a producer. -/
def taken (trail : List (Exchange (Productions J))) : List J := trail.filterMap acceptance?

/-- Whether a producer was told to leave off. -/
def interrupted (trail : List (Exchange (Productions J))) : Bool := trail.any interrupts

/-- Nothing was called where nothing has passed. -/
@[simp] theorem called_nil : called ([] : List (Exchange (Productions J))) = [] := rfl

/-- No job was taken where nothing has passed. -/
@[simp] theorem taken_nil : taken ([] : List (Exchange (Productions J))) = [] := rfl

section Append

variable (first second : List (Exchange (Productions J)))

/-- The calls in two parts of a trail are those in the one and then those in the other. -/
@[simp] theorem called_append : called (first ++ second) = called first ++ called second :=
  List.filterMap_append

/-- What the resolver was asked in two parts of a trail is what it was asked in each of them. -/
@[simp] theorem resolutions_append :
    resolutions (first ++ second) = resolutions first ++ resolutions second := by
  simp [resolutions]

/-- The answers of the resolver in two parts of a trail are those in each of them. -/
@[simp] theorem answers_append : answers (first ++ second) = answers first ++ answers second := by
  simp [answers]

/-- The calls on the object store in two parts of a trail are those in each of them. -/
@[simp] theorem objectCalls_append :
    objectCalls (first ++ second) = objectCalls first ++ objectCalls second := by
  simp [objectCalls]

/-- The jobs that were taken in two parts of a trail are those in each of them. -/
@[simp] theorem taken_append : taken (first ++ second) = taken first ++ taken second :=
  List.filterMap_append

/-- A producer was told to leave off in two parts of a trail if it was told so in one of them. -/
@[simp] theorem interrupted_append :
    interrupted (first ++ second) = (interrupted first || interrupted second) :=
  List.any_append

/-- The jobs that were offered in two parts of a trail are those in each of them. -/
@[simp] theorem offered_append : offered (first ++ second) = offered first ++ offered second :=
  List.filterMap_append

end Append

section Calls

variable (calls : List (Exchange Calls))

/-- In a trail of nothing but calls the calls are these. -/
@[simp] theorem called_produced :
    called (calls.map produced : List (Exchange (Productions J))) = calls := by
  induction calls with
  | nil => rfl
  | cons exchange calls ih => exact congrArg (exchange :: ·) ih

/-- In a trail of nothing but calls no job was taken. -/
@[simp] theorem taken_produced :
    taken (calls.map produced : List (Exchange (Productions J))) = [] := by
  induction calls with
  | nil => rfl
  | cons exchange calls ih => exact ih

/-- By calls no producer is told to leave off, however they are answered. -/
@[simp] theorem interrupted_produced :
    interrupted (calls.map produced : List (Exchange (Productions J))) = false := by
  induction calls with
  | nil => rfl
  | cons exchange calls ih => exact ih

/-- In a trail of nothing but calls no job was offered. -/
@[simp] theorem offered_produced :
    offered (calls.map produced : List (Exchange (Productions J))) = [] := by
  induction calls with
  | nil => rfl
  | cons exchange calls ih => exact ih

/-- A producer that begins with a call asks for that call first, and goes on as its program of calls
does. -/
theorem Producing.calling_ask_bind (call : Call) (inner : call.Answer → Calling α)
    (next : α → Producing J β) :
    (Producing.calling (.ask call inner)).bind next =
      .ask (.call call) fun answer => (Producing.calling (inner answer)).bind next := rfl

/-- A producer that has come to its end has carried out its calls, and then what follows them. -/
theorem Producing.calling_bind_ended {program : Calling α} {next : α → Producing J β}
    {trail : List (Exchange (Productions J))} {result : β}
    (leads : ((Producing.calling program).bind next).Leads trail (.done result)) :
    ∃ calls value rest, trail = calls.map produced ++ rest ∧
      program.Leads calls (.done value) ∧ (next value).Leads rest (.done result) := by
  induction program generalizing trail with
  | done value => exact ⟨[], value, trail, rfl, .here _, leads⟩
  | ask call inner ih =>
    rw [calling_ask_bind] at leads
    obtain ⟨answer, later, rfl, after⟩ := Program.ask_ended leads
    · obtain ⟨calls, value, rest, rfl, ended, goes⟩ := ih answer after
      exact ⟨⟨call, answer⟩ :: calls, value, rest, rfl,
        @Program.Leads.ask Calls α call inner calls _ answer ended, goes⟩

end Calls

/-- What a producer exchanges about one piece of its work: it is not to stop, it makes calls, and it
hands over jobs. -/
def passage (calls : List (Exchange Calls)) (handed : List (Exchange (Productions J))) :
    List (Exchange (Productions J)) :=
  ⟨.isStopping, false⟩ :: (calls.map produced ++ handed)

section Passage

variable (calls : List (Exchange Calls)) (handed : List (Exchange (Productions J)))

/-- What passes after a passage is handed over later than what the passage hands over. -/
theorem passage_append (rest : List (Exchange (Productions J))) :
    passage calls handed ++ rest = passage calls (handed ++ rest) := by
  simp [passage]

/-- The calls of a passage are those that prepare it and those among what it hands over. -/
@[simp] theorem called_passage : called (passage calls handed) = calls ++ called handed := by
  have first : called (passage calls handed) = called (calls.map produced ++ handed) := rfl
  rw [first, called_append, called_produced]

/-- The jobs that were taken in a passage are those that it hands over. -/
@[simp] theorem taken_passage : taken (passage calls handed) = taken handed := by
  have first : taken (passage calls handed) = taken (calls.map produced ++ handed) := rfl
  rw [first, taken_append, taken_produced, List.nil_append]

/-- A producer is told to leave off in a passage only while it hands over: it began because the work
went on. -/
@[simp] theorem interrupted_passage :
    interrupted (passage calls handed) = interrupted handed := by
  have first : interrupted (passage calls handed) = interrupted (calls.map produced ++ handed) :=
    rfl
  rw [first, interrupted_append, interrupted_produced, Bool.false_or]

/-- The jobs that were offered in a passage are those that it hands over. -/
@[simp] theorem offered_passage : offered (passage calls handed) = offered handed := by
  have first : offered (passage calls handed) = offered (calls.map produced ++ handed) := rfl
  rw [first, offered_append, offered_produced, List.nil_append]

end Passage

section Offered

variable {first second front back : List (Exchange (Productions J))} {job : J} {accepted : Bool}

/-- Where a job is handed over, one is offered, whether it is taken or refused. -/
theorem offered_ne_nil : offered (front ++ ⟨.queue job, accepted⟩ :: back) ≠ [] := by
  simp [offered, Production.job?]

/-- What comes before the handing over of a job begins with all in which no job is handed over. -/
theorem split_at_queue (silent : offered first = [])
    (cut : first ++ second = front ++ ⟨.queue job, accepted⟩ :: back) :
    ∃ more, front = first ++ more ∧ second = more ++ ⟨.queue job, accepted⟩ :: back := by
  rcases List.append_eq_append_iff.mp cut with ⟨more, rfl, rest⟩ | ⟨more, rfl, rest⟩
  · exact ⟨more, rfl, rest⟩
  · cases more with
    | nil => exact ⟨[], by simp, by simpa using rest.symm⟩
    | cons exchange more =>
      obtain ⟨rfl, -⟩ := List.cons_eq_cons.mp rest
      exact absurd silent offered_ne_nil

end Offered

end Pool

end DatasetSync
