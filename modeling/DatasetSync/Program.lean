/-!
# Programs as trees of requests

A program that depends on the world is a tree: it is done, or it asks something and goes on
by the answer. Each request is one step of the world. One and the same tree can be carried
out from start to end, or step by step among the steps of others.
-/

namespace DatasetSync

/-- What programs can ask, and the type of each answer. -/
structure Interface where
  Request : Type
  Answer : Request → Type

/-- A program that asks by an interface and ends with a value. -/
inductive Program (interface : Interface) (α : Type) : Type where
  | done (value : α)
  | ask (request : interface.Request) (next : interface.Answer request → Program interface α)

namespace Program

variable {interface : Interface} {α β γ : Type}

/-- Go on with another program when the first one is done. -/
def bind (program : Program interface α) (next : α → Program interface β) :
    Program interface β :=
  match program with
  | done value => next value
  | ask request rest => ask request fun answer => (rest answer).bind next

/-- Ask one thing and end with the answer. -/
def request (interface : Interface) (request : interface.Request) :
    Program interface (interface.Answer request) :=
  ask request done

instance : Monad (Program interface) where
  pure := done
  bind := bind

/-- A program that only returns a value asks nothing. With this equation and the next one programs
in `do` notation are brought to their constructors. -/
@[simp] theorem pure_eq_done (value : α) : (pure value : Program interface α) = done value := rfl

/-- Sequencing in `do` notation is the function `bind`, to which all laws of this library are
stated. -/
@[simp] theorem bind_eq (program : Program interface α) (next : α → Program interface β) :
    program >>= next = program.bind next := rfl

/-- What follows a program that is done is the next program, given its value. -/
@[simp] theorem done_bind (value : α) (next : α → Program interface β) :
    (done value).bind next = next value := rfl

/-- A program that asks first asks first in a sequence, too; what follows it follows each of its
continuations. -/
@[simp] theorem ask_bind (request : interface.Request)
    (rest : interface.Answer request → Program interface α) (next : α → Program interface β) :
    (ask request rest).bind next = ask request fun answer => (rest answer).bind next := rfl

/-- Nothing is added to a program by returning its value. The induction is on the tree of the
program. -/
@[simp] theorem bind_done (program : Program interface α) : program.bind done = program := by
  induction program with
  | done value => rfl
  | ask request rest ih => simp [ih]

/-- It does not matter where a sequence of three programs is split. The induction is on the tree
of the first one: its leaves are replaced by the second program, and those of the result by the
third. -/
theorem bind_assoc (program : Program interface α) (first : α → Program interface β)
    (second : β → Program interface γ) :
    (program.bind first).bind second = program.bind fun value => (first value).bind second := by
  induction program with
  | done value => rfl
  | ask request rest ih => simp [ih]

/-- Carry a program out, answering its requests by a rule. -/
def run {m : Type → Type} [Monad m]
    (answer : (request : interface.Request) → m (interface.Answer request)) :
    Program interface α → m α
  | done value => pure value
  | ask request next => do run answer (next (← answer request))

end Program

end DatasetSync
