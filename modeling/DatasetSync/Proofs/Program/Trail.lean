import DatasetSync.Controller.Reconcile

/-!
# Trails through programs

A program that is carried out step by step among the steps of others is known by what it
asked so far and how it was answered. Such a list of exchanges is a trail, and it leads from
the whole program to what is left of it. Nothing is said about who answers: an answer may be
any value of its type, so that a law about trails holds in all surroundings.

A trail through two programs in sequence is a trail through the first one, or it splits where
the first one ends. With this law a long program is taken apart along its text.
-/

namespace DatasetSync

/-- A request and its answer. -/
structure Exchange (interface : Interface) where
  request : interface.Request
  answer : interface.Answer request

namespace Program

variable {interface : Interface} {α β : Type}

/-- A program has made a list of exchanges, oldest first, and another program is left. -/
inductive Leads : Program interface α → List (Exchange interface) → Program interface α → Prop
  | here (program : Program interface α) : Leads program [] program
  | ask {request : interface.Request} {next : interface.Answer request → Program interface α}
      {trail : List (Exchange interface)} {rest : Program interface α}
      (answer : interface.Answer request) (later : Leads (next answer) trail rest) :
      Leads (.ask request next) (⟨request, answer⟩ :: trail) rest

/-- A program that is done asks nothing: only the empty trail leads through it, and to itself. -/
@[simp] theorem done_leads_iff {value : α} {trail : List (Exchange interface)}
    {rest : Program interface α} :
    Leads (.done value) trail rest ↔ trail = [] ∧ rest = .done value := by
  constructor
  · intro leads
    cases leads
    exact ⟨rfl, rfl⟩
  · rintro ⟨rfl, rfl⟩
    exact .here _

/-- A program that asks has not moved, or its first exchange is an answer to its question. -/
theorem ask_leads_iff {request : interface.Request}
    {next : interface.Answer request → Program interface α}
    {trail : List (Exchange interface)} {rest : Program interface α} :
    Leads (.ask request next) trail rest ↔
      (trail = [] ∧ rest = .ask request next) ∨
        ∃ answer later, trail = ⟨request, answer⟩ :: later ∧ Leads (next answer) later rest := by
  constructor
  · intro leads
    cases leads with
    | here => exact .inl ⟨rfl, rfl⟩
    | ask answer later => exact .inr ⟨answer, _, rfl, later⟩
  · rintro (⟨rfl, rfl⟩ | ⟨answer, later, rfl, leads⟩)
    · exact .here _
    · exact .ask answer leads

/-- A program that is done has come to its end, by no exchange and with its own value. -/
theorem done_ended {value reached : α} {trail : List (Exchange interface)}
    (ended : Leads (.done value) trail (.done reached)) : trail = [] ∧ reached = value := by
  obtain ⟨none, same⟩ := done_leads_iff.mp ended
  cases same
  exact ⟨none, rfl⟩

/-- A program that asks was answered before it came to its end, and the rest of the trail leads
through the continuation that it was given the answer. -/
theorem ask_ended {request : interface.Request}
    {next : interface.Answer request → Program interface α}
    {trail : List (Exchange interface)} {value : α}
    (ended : Leads (.ask request next) trail (.done value)) :
    ∃ answer later, trail = ⟨request, answer⟩ :: later ∧
      Leads (next answer) later (.done value) := by
  rcases ask_leads_iff.mp ended with ⟨-, impossible⟩ | answered
  · cases impossible
  · exact answered

/-- Given how it is answered, a program comes to its end in one way only. If two trails of which
each leads to an end are parts of one list of exchanges, they are the same trail, and so are the
values. -/
theorem Leads.done_unique {program : Program interface α}
    {first second whole : List (Exchange interface)} {value value' : α}
    (leads : Leads program first (.done value)) (leads' : Leads program second (.done value'))
    (within : first <+: whole) (within' : second <+: whole) :
    first = second ∧ value = value' := by
  induction program generalizing first second whole with
  | done reached =>
    obtain ⟨rfl, rfl⟩ := done_ended leads
    obtain ⟨rfl, rfl⟩ := done_ended leads'
    exact ⟨rfl, rfl⟩
  | ask request next ih =>
    obtain ⟨answer, later, rfl, after⟩ := ask_ended leads
    obtain ⟨answer', later', rfl, after'⟩ := ask_ended leads'
    obtain ⟨rest, rfl⟩ := within
    obtain ⟨sameExchange, tail⟩ := List.cons_prefix_cons.mp within'
    cases sameExchange
    obtain ⟨sameTrail, sameValue⟩ := ih answer after after' (List.prefix_append later rest) tail
    exact ⟨by rw [sameTrail], sameValue⟩

/-- One more answer leads one step further. Any answer of the right type will do; who gives it is
left open. -/
theorem Leads.answered {program : Program interface α} {trail : List (Exchange interface)}
    {request : interface.Request} {next : interface.Answer request → Program interface α}
    (leads : Leads program trail (.ask request next)) (answer : interface.Answer request) :
    Leads program (trail ++ [⟨request, answer⟩]) (next answer) := by
  generalize left : Program.ask request next = rest at leads
  induction leads with
  | here program =>
    subst left
    exact .ask answer (.here _)
  | ask given later ih => exact .ask given (ih left)

/-- A trail through two programs in sequence ends within the first one, or it goes on in the
second one from the value with which the first one was done. -/
theorem bind_leads_iff {program : Program interface α} {next : α → Program interface β}
    {trail : List (Exchange interface)} {rest : Program interface β} :
    Leads (program.bind next) trail rest ↔
      (∃ request left, Leads program trail (.ask request left) ∧
        rest = .ask request fun answer => (left answer).bind next) ∨
      ∃ first second value, trail = first ++ second ∧ Leads program first (.done value) ∧
        Leads (next value) second rest := by
  induction program generalizing trail with
  | done value =>
    constructor
    · intro leads
      exact .inr ⟨[], trail, value, rfl, .here _, leads⟩
    · rintro (⟨request, left, leads, -⟩ | ⟨first, second, reached, rfl, leads, later⟩)
      · simp at leads
      · obtain ⟨rfl, same⟩ := done_leads_iff.mp leads
        cases same
        exact later
  | ask request inner ih =>
    rw [ask_bind, ask_leads_iff]
    constructor
    · rintro (⟨rfl, rfl⟩ | ⟨answer, later, rfl, leads⟩)
      · exact .inl ⟨request, inner, .here _, rfl⟩
      · rcases (ih answer).mp leads with ⟨asked, left, within, rfl⟩ |
          ⟨first, second, value, rfl, ended, after⟩
        · exact .inl ⟨asked, left, .ask answer within, rfl⟩
        · exact .inr ⟨⟨request, answer⟩ :: first, second, value, rfl, .ask answer ended, after⟩
    · rintro (⟨asked, left, leads, rfl⟩ | ⟨first, second, value, rfl, leads, after⟩)
      · cases leads with
        | here => exact .inl ⟨rfl, rfl⟩
        | ask answer later =>
          exact .inr ⟨answer, _, rfl, (ih answer).mpr (.inl ⟨asked, left, later, rfl⟩)⟩
      · cases leads with
        | ask answer later =>
          exact .inr ⟨answer, _, rfl,
            (ih answer).mpr (.inr ⟨_, second, value, rfl, later, after⟩)⟩

/-- Where two programs in sequence have come to their end, so had the first one before the second
one began. -/
theorem bind_ended {program : Program interface α} {next : α → Program interface β}
    {trail : List (Exchange interface)} {result : β}
    (ended : Leads (program.bind next) trail (.done result)) :
    ∃ first second value, trail = first ++ second ∧ Leads program first (.done value) ∧
      Leads (next value) second (.done result) := by
  rcases bind_leads_iff.mp ended with ⟨request, left, -, impossible⟩ | split
  · cases impossible
  · exact split

/-- The answers of a trail are given by a rule, which may go by all that was said before. -/
def AnsweredBy (rule : List (Exchange interface) → (request : interface.Request) →
    interface.Answer request) (trail : List (Exchange interface)) : Prop :=
  ∀ front request answer back, trail = front ++ ⟨request, answer⟩ :: back →
    answer = rule front request

/-- Whoever answers, a program comes to its end: a rule that answers by what was asked before
determines a trail. The induction is on the tree of the program, of which every path is finite. -/
theorem exists_ended (program : Program interface α) (rule : List (Exchange interface) →
    (request : interface.Request) → interface.Answer request) :
    ∃ trail value, program.Leads trail (.done value) ∧ AnsweredBy rule trail := by
  induction program generalizing rule with
  | done value =>
    refine ⟨[], value, .here _, ?_⟩
    intro front request answer back cut
    cases front <;> cases cut
  | ask request next ih =>
    let answer := rule [] request
    obtain ⟨trail, value, leads, answered⟩ :=
      ih answer fun front => rule (⟨request, answer⟩ :: front)
    refine ⟨⟨request, answer⟩ :: trail, value, .ask answer leads, ?_⟩
    intro front asked given back cut
    cases front with
    | nil =>
      cases cut
      rfl
    | cons first front =>
      obtain ⟨rfl, later⟩ := List.cons_eq_cons.mp cut
      exact answered front asked given back later

/-- Whatever the answers, a program asks only for what is allowed. -/
def AsksOnly (allowed : interface.Request → Prop) : Program interface α → Prop
  | .done _ => True
  | .ask request next => allowed request ∧ ∀ answer, (next answer).AsksOnly allowed

/-- Two programs in sequence ask only for what both may ask for. The second one has to keep to this
whatever the value of the first one is. -/
theorem AsksOnly.bind {allowed : interface.Request → Prop} {program : Program interface α}
    {next : α → Program interface β} (first : program.AsksOnly allowed)
    (second : ∀ value, (next value).AsksOnly allowed) :
    (program.bind next).AsksOnly allowed := by
  induction program with
  | done value => exact second value
  | ask request rest ih => exact ⟨first.1, fun answer => ih answer (first.2 answer)⟩

/-- A program that keeps to what is allowed keeps to anything that allows more. -/
theorem AsksOnly.imp {allowed more : interface.Request → Prop} {program : Program interface α}
    (asks : program.AsksOnly allowed) (weaker : ∀ request, allowed request → more request) :
    program.AsksOnly more := by
  induction program with
  | done value => trivial
  | ask request rest ih => exact ⟨weaker request asks.1, fun answer => ih answer (asks.2 answer)⟩

/-- A program has asked only for what it may ask for, at every exchange of a trail and whatever the
answers were. -/
theorem AsksOnly.asked {allowed : interface.Request → Prop} {program rest : Program interface α}
    {trail : List (Exchange interface)} (asks : program.AsksOnly allowed)
    (leads : program.Leads trail rest) : ∀ exchange ∈ trail, allowed exchange.request := by
  induction leads with
  | here program => simp
  | ask answer later ih =>
    intro exchange member
    rcases List.mem_cons.mp member with rfl | member
    · exact asks.1
    · exact ih (asks.2 answer) exchange member

/-- What is left of a program asks only for what the whole program may ask for. -/
theorem AsksOnly.leads {allowed : interface.Request → Prop} {program rest : Program interface α}
    {trail : List (Exchange interface)} (asks : program.AsksOnly allowed)
    (leads : program.Leads trail rest) : rest.AsksOnly allowed := by
  induction leads with
  | here program => exact asks
  | ask answer later ih => exact ih (asks.2 answer)

end Program

/-- A call that does not concern the document store. -/
def Call.SparesDocuments (call : Call) : Prop := ∀ made, call ≠ .document made

/-- A call that neither copies nor removes an object. -/
def Call.SparesObjects : Call → Prop
  | .object (.copyObject _ _) => False
  | .object (.removeObject _) => False
  | _ => True

instance (call : Call) : Decidable call.SparesObjects :=
  match call with
  | .object (.copyObject _ _) | .object (.removeObject _) => .isFalse id
  | .object (.bucketExists _) | .object (.makeBucket _) | .object (.listObjects _ _ _) =>
    .isTrue trivial
  | .document _ | .resolve _ _ | .clock => .isTrue trivial

/-- A call that touches neither documents nor objects. -/
def Call.IsQuiet (call : Call) : Prop := call.SparesDocuments ∧ call.SparesObjects

namespace Controlling

/-- An exchange of a call, seen as an exchange of the controller. -/
def exchanged (exchange : Exchange Calls) : Exchange Controls :=
  ⟨.call exchange.request, exchange.answer⟩

/-- A program without calls asks nothing of the controller. -/
@[simp] theorem calling_done {α : Type} (value : α) :
    calling (.done value) = (.done value : Controlling α) := rfl

/-- A program that begins with a call asks the controller to make that call. -/
@[simp] theorem calling_ask {α : Type} (call : Call) (next : call.Answer → Calling α) :
    calling (.ask call next) = .ask (.call call) fun answer => calling (next answer) := rfl

/-- The trails of a program of calls are the same when the controller carries it out. -/
theorem calling_leads_iff {α : Type} {program : Calling α} {trail : List (Exchange Controls)}
    {rest : Controlling α} :
    (calling program).Leads trail rest ↔
      ∃ calls left, trail = calls.map exchanged ∧ program.Leads calls left ∧
        rest = calling left := by
  induction program generalizing trail with
  | done value =>
    simp only [calling_done, Program.done_leads_iff]
    constructor
    · rintro ⟨rfl, rfl⟩
      exact ⟨[], .done value, rfl, ⟨rfl, rfl⟩, rfl⟩
    · rintro ⟨calls, left, rfl, ⟨rfl, rfl⟩, rfl⟩
      exact ⟨rfl, rfl⟩
  | ask call next ih =>
    rw [calling_ask, Program.ask_leads_iff]
    constructor
    · rintro (⟨rfl, rfl⟩ | ⟨answer, later, rfl, leads⟩)
      · exact ⟨[], .ask call next, rfl, .here _, rfl⟩
      · obtain ⟨calls, left, rfl, within, rfl⟩ := (ih answer).mp leads
        have extended : (Program.ask call next).Leads (⟨call, answer⟩ :: calls) left :=
          @Program.Leads.ask Calls α call next calls left answer within
        exact ⟨_, left, rfl, extended, rfl⟩
    · rintro ⟨calls, left, rfl, leads, rfl⟩
      cases leads with
      | here => exact .inl ⟨rfl, rfl⟩
      | ask answer later =>
        exact .inr ⟨answer, _, rfl, (ih answer).mpr ⟨_, left, rfl, later, rfl⟩⟩

/-- A program of calls that the controller carries out asks for nothing but calls. Where it asks,
the program itself asks for that call, having made the calls before it. -/
theorem calling_asks {α : Type} {program : Calling α} {trail : List (Exchange Controls)}
    {control : Control} {next : control.Answer → Controlling α}
    (leads : (calling program).Leads trail (.ask control next)) :
    ∃ call calls left, control = .call call ∧ trail = calls.map exchanged ∧
      program.Leads calls (.ask call left) := by
  obtain ⟨calls, left, rfl, within, same⟩ := calling_leads_iff.mp leads
  cases left with
  | done value => simp at same
  | ask call left =>
    rw [calling_ask] at same
    cases same
    exact ⟨call, calls, left, rfl, rfl, within⟩

/-- A program of calls that the controller has carried out is done: the trail is that of its calls,
and they lead the program to its end. -/
theorem calling_ends {α : Type} {program : Calling α} {trail : List (Exchange Controls)}
    {value : α} (leads : (calling program).Leads trail (.done value)) :
    ∃ calls, trail = calls.map exchanged ∧ program.Leads calls (.done value) := by
  obtain ⟨calls, left, rfl, within, same⟩ := calling_leads_iff.mp leads
  cases left with
  | done reached =>
    cases same
    exact ⟨calls, rfl, within⟩
  | ask call left => simp at same

end Controlling

end DatasetSync
