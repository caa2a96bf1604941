import DatasetSync.Proofs.Engine.Step
import DatasetSync.Proofs.Sync.Progress

/-!
# What one move changes

Each move of the engine concerns one look, one run, the documents, or none of them. What can
happen to a look and to a run is said here once for each of them; invariants of the engine
are then proved by these few cases and not by the list of all moves.
-/

namespace DatasetSync.Engine

variable {policy : Policy} {before after : Engine} {event : Event}

/-- An entry of a list with one more entry is an old one, or the new one. -/
theorem entry_append {α : Type} {entries : List α} {new entry : α} {position : Nat}
    (found : (entries ++ [new])[position]? = some entry) :
    entries[position]? = some entry ∨ (position = entries.length ∧ entry = new) := by
  rcases Nat.lt_or_ge position entries.length with inside | outside
  · rw [List.getElem?_append_left inside] at found
    exact .inl found
  · rw [List.getElem?_append_right outside] at found
    obtain ⟨first, same⟩ := List.getElem?_eq_some_iff.mp found
    have last : position = entries.length := by
      simp only [List.length_singleton] at first
      omega
    subst last
    exact .inr ⟨rfl, by simpa using same.symm⟩

/-- An entry of a list in which one entry was replaced is the replacement, or an old one at
another position. -/
theorem entry_set {α : Type} {entries : List α} {new entry : α} {replaced position : Nat}
    (found : (entries.set replaced new)[position]? = some entry) :
    (position = replaced ∧ entry = new) ∨
      (position ≠ replaced ∧ entries[position]? = some entry) := by
  by_cases same : replaced = position
  · subst same
    obtain ⟨inside, at'⟩ := List.getElem?_eq_some_iff.mp found
    exact .inl ⟨rfl, by simpa using at'.symm⟩
  · rw [List.getElem?_set_ne same] at found
    exact .inr ⟨Ne.symm same, found⟩

/-- What a move does to the looks. -/
inductive LookMove (policy : Policy) (before : Engine) : Event → List Look → Prop
  /-- No look asks or begins anything. -/
  | still {event : Event} (quiet : ∀ look control answer, event ≠ .asked look control answer) :
      LookMove policy before event before.looks
  /-- A look begins. -/
  | began {document : Document} (seen : document ∈ before.seen) :
      LookMove policy before (.began before.looks.length document)
        (before.looks ++ [⟨document, .asking (policy.reconcile document)⟩])
  /-- A look starts a run and waits for it. -/
  | synced {look : Nat} {document : Document} {plan : SyncPlan}
      {next : Except SyncError RunOutcome → Controlling (Except ReconcileError Next)}
      (asking : before.looks[look]? = some ⟨document, .asking (.ask (.sync plan) next)⟩) :
      LookMove policy before (.synced look plan)
        (before.looks.set look ⟨document, .waiting plan before.runs.length next⟩)
  /-- A look is answered. -/
  | answered {look : Nat} {document : Document} {stage : LookStage} {control : Control}
      {next : control.Answer → Controlling (Except ReconcileError Next)}
      (answer : control.Answer) (asking : before.looks[look]? = some ⟨document, stage⟩)
      (rest : stage.rest = .ask control next) :
      LookMove policy before (.asked look control answer)
        (before.looks.set look ⟨document, .asking (next answer)⟩)

/-- Every move does one of these things to the looks. What else it does is not told here. -/
theorem Step.lookMove (move : Step policy before event after) :
    LookMove policy before event after.looks := by
  cases move with
  | begin seen => exact .began seen
  | sync asking => exact .synced asking
  | call asking => exact .answered _ asking rfl
  | resume waiting found ended => exact .answered _ waiting rfl
  | launch asking => exact .answered _ asking rfl
  | stop asking => exact .answered _ asking rfl
  | await asking retired => exact .answered _ asking rfl
  | write | tick | read | run | retire | scheduleCopy | scheduleRemoval | cancel =>
    exact .still (by simp)

/-- What a move does to a look: it was there before and stays where it is, starts a run, or
is answered; or the look begins. -/
theorem LookMove.cases {looks : List Look} (move : LookMove policy before event looks)
    {look : Nat} {document : Document} {stage' : LookStage}
    (found : looks[look]? = some ⟨document, stage'⟩) :
    (∃ stage, before.looks[look]? = some ⟨document, stage⟩ ∧
      ((event.exchange? look = none ∧ stage' = stage) ∨
        (∃ plan next, stage = .asking (.ask (.sync plan) next) ∧ event = .synced look plan ∧
          stage' = .waiting plan before.runs.length next) ∨
        ∃ control next answer, stage.rest = .ask control next ∧
          event.exchange? look = some ⟨control, answer⟩ ∧ stage' = .asking (next answer))) ∨
      (look = before.looks.length ∧ document ∈ before.seen ∧ event = .began look document ∧
        stage' = .asking (policy.reconcile document)) := by
  cases move with
  | still quiet =>
    refine .inl ⟨stage', found, .inl ⟨?_, rfl⟩⟩
    cases event with
    | asked asker control answer => exact absurd rfl (quiet asker control answer)
    | _ => rfl
  | began seen =>
    rcases entry_append found with old | ⟨rfl, same⟩
    · exact .inl ⟨stage', old, .inl ⟨rfl, rfl⟩⟩
    · cases same
      exact .inr ⟨rfl, seen, rfl, rfl⟩
  | @synced asker other plan next asking =>
    rcases entry_set found with ⟨rfl, same⟩ | ⟨other, old⟩
    · cases same
      exact .inl ⟨_, asking, .inr (.inl ⟨plan, next, rfl, rfl, rfl⟩)⟩
    · exact .inl ⟨stage', old, .inl ⟨rfl, rfl⟩⟩
  | @answered asker other stage control next answer asking rest =>
    rcases entry_set found with ⟨rfl, same⟩ | ⟨distinct, old⟩
    · cases same
      exact .inl ⟨stage, asking, .inr (.inr ⟨control, next, answer, rest, if_pos rfl, rfl⟩)⟩
    · exact .inl ⟨stage', old, .inl ⟨if_neg (Ne.symm distinct), rfl⟩⟩

/-- A move takes no look away, and each look keeps its document, whatever stage it comes to. -/
theorem LookMove.present {looks : List Look} (move : LookMove policy before event looks)
    {look : Nat} {document : Document} {stage : LookStage}
    (found : before.looks[look]? = some ⟨document, stage⟩) :
    ∃ stage', looks[look]? = some ⟨document, stage'⟩ := by
  have inside : look < before.looks.length := (List.getElem?_eq_some_iff.mp found).1
  have kept : look < looks.length := by
    cases move with
    | still quiet => exact inside
    | began seen => simp only [List.length_append]; omega
    | synced asking => simpa using inside
    | answered answer asking rest => simpa using inside
  obtain ⟨document', stage', present⟩ : ∃ document' stage',
      looks[look]? = some ⟨document', stage'⟩ := ⟨_, _, List.getElem?_eq_getElem kept⟩
  rcases move.cases present with ⟨former, found', -⟩ | ⟨rfl, -⟩
  · rw [found] at found'
    cases found'
    exact ⟨stage', present⟩
  · omega

/-- A look that is not there after a move was not there before, and has asked nothing. -/
theorem LookMove.silent {looks : List Look} (move : LookMove policy before event looks)
    {look : Nat} (outside : looks.length ≤ look) :
    before.looks.length ≤ look ∧ event.exchange? look = none := by
  cases move with
  | still quiet =>
    refine ⟨outside, ?_⟩
    cases event with
    | asked asker control answer => exact absurd rfl (quiet asker control answer)
    | _ => rfl
  | began seen =>
    rw [List.length_append] at outside
    exact ⟨by omega, rfl⟩
  | synced asking =>
    rw [List.length_set] at outside
    exact ⟨outside, rfl⟩
  | @answered asker document stage control next answer asking rest =>
    rw [List.length_set] at outside
    have inside : asker < before.looks.length := (List.getElem?_eq_some_iff.mp asking).1
    exact ⟨outside, if_neg (by omega)⟩

/-- What a move does to a run that is there. -/
inductive RunMove (before : Engine) (number : Nat) (run : EngineRun) :
    Event → Engine → EngineRun → Prop
  /-- The run stays as it is, except that it may have given its registration back. -/
  | kept {event : Event} {after : Engine} (retired : Bool) (other : event ≠ .ran number) :
      RunMove before number run event after { run with retired }
  /-- The run is cancelled; no look waits for such a run. -/
  | cancelled {event : Event} {after : Engine} (other : event ≠ .ran number)
      (free : ∀ look, run.origin ≠ .look look) :
      RunMove before number run event after { run with active := run.active.cancel }
  /-- The run moves. -/
  | moved {after : Engine} {active : ActiveRun}
      (move : ActiveRun.Step Backends.answer (run.active, before.backends)
        (active, after.backends)) :
      RunMove before number run (.ran number) after { run with active }

/-- How a run comes into being. -/
inductive RunStart (before : Engine) : Event → SyncPlan → RunOrigin → Prop
  | synced {look : Nat} {document : Document} {plan : SyncPlan}
      {next : Except SyncError RunOutcome → Controlling (Except ReconcileError Next)}
      (asking : before.looks[look]? = some ⟨document, .asking (.ask (.sync plan) next)⟩) :
      RunStart before (.synced look plan) plan (.look look)
  | launched {look : Nat} {document : Document} {key : String} {plan : SyncPlan}
      {next : RunId → Controlling (Except ReconcileError Next)} {id : RunId}
      (asking : before.looks[look]? = some ⟨document, .asking (.ask (.launch key plan) next)⟩) :
      RunStart before (.asked look (.launch key plan) id) plan (.launched key id)
  | copy {document : Document} (sizing : Pool.Sizing) (seen : document ∈ before.seen) :
      RunStart before (.scheduled (.copying document sizing)) (.copying document sizing) .alone
  | removal {document : Document} (deleted : FileTree) (sizing : Pool.Sizing)
      (seen : document ∈ before.seen) :
      RunStart before (.scheduled (.removing document deleted sizing))
        (.removing document deleted sizing) .alone

/-- A registry that is noticed leaves every run as it is or cancels it, and only a launched run is
cancelled. -/
theorem notice_cases (registry : Registry) (run : EngineRun) :
    run.notice registry = run ∨
      (run.notice registry = { run with active := run.active.cancel } ∧
        ∀ look, run.origin ≠ .look look) := by
  unfold EngineRun.notice
  split
  · rename_i key id launched
    split
    · exact .inr ⟨rfl, by simp [launched]⟩
    · exact .inl rfl
  · exact .inl rfl

/-- A run after its registry was noticed was there before, and at most it was cancelled. -/
theorem noticed_cases {registry : Registry} {number : Nat} {run' : EngineRun}
    (other : event ≠ .ran number)
    (found : (before.withRegistry registry).runs[number]? = some run') :
    ∃ run, before.runs[number]? = some run ∧ RunMove before number run event after run' := by
  have mapped : (before.runs[number]?).map (·.notice registry) = some run' :=
    List.getElem?_map.symm.trans found
  obtain ⟨run, present, rfl⟩ := Option.map_eq_some_iff.mp mapped
  refine ⟨run, present, ?_⟩
  rcases notice_cases registry run with same | ⟨cancelled, free⟩
  · rw [same]
    exact .kept run.retired other
  · rw [cancelled]
    exact .cancelled other free

/-- A run after a move was there before, or it has been started by the move, as the last one in the
list. -/
theorem Step.run_cases (move : Step policy before event after) {number : Nat}
    {run' : EngineRun}
    (found : after.runs[number]? = some run') :
    (∃ run, before.runs[number]? = some run ∧ RunMove before number run event after run') ∨
      (number = before.runs.length ∧ event ≠ .ran number ∧
        ∃ plan origin, RunStart before event plan origin ∧
          run' = { active := .start plan false, origin, retired := false }) := by
  cases move with
  | write | tick | read | begin | call | resume | await =>
    exact .inl ⟨run', found, .kept run'.retired (by simp)⟩
  | sync asking =>
    rcases entry_append found with old | ⟨rfl, rfl⟩
    · exact .inl ⟨run', old, .kept run'.retired (by simp)⟩
    · exact .inr ⟨rfl, by simp, _, _, .synced asking, rfl⟩
  | launch asking =>
    rcases entry_append found with old | ⟨rfl, rfl⟩
    · exact .inl (noticed_cases (by simp) old)
    · exact .inr ⟨by simp [withRegistry], by simp, _, _, .launched asking, rfl⟩
  | stop asking => exact .inl (noticed_cases (by simp) found)
  | @run moved run active backends present move =>
    rcases entry_set found with ⟨rfl, rfl⟩ | ⟨other, old⟩
    · exact .inl ⟨run, present, .moved move⟩
    · exact .inl ⟨run', old, .kept run'.retired (by simpa using Ne.symm other)⟩
  | @retire retired run key id outcome present launched ended registered =>
    rcases entry_set found with ⟨rfl, rfl⟩ | ⟨other, old⟩
    · exact .inl ⟨run, present, .kept true (by simp)⟩
    · exact .inl ⟨run', old, .kept run'.retired (by simp)⟩
  | scheduleCopy sizing seen =>
    rcases entry_append found with old | ⟨rfl, rfl⟩
    · exact .inl ⟨run', old, .kept run'.retired (by simp)⟩
    · exact .inr ⟨rfl, by simp, _, _, .copy sizing seen, rfl⟩
  | scheduleRemoval deleted sizing seen =>
    rcases entry_append found with old | ⟨rfl, rfl⟩
    · exact .inl ⟨run', old, .kept run'.retired (by simp)⟩
    · exact .inr ⟨rfl, by simp, _, _, .removal deleted sizing seen, rfl⟩
  | @cancel cancelled run present alone =>
    rcases entry_set found with ⟨rfl, rfl⟩ | ⟨other, old⟩
    · exact .inl ⟨run, present, .cancelled (by simp) (by simp [alone])⟩
    · exact .inl ⟨run', old, .kept run'.retired (by simp)⟩

/-- A move takes no run away: it stays in its place, as it was, moved, cancelled, or retired. -/
theorem Step.run_present (move : Step policy before event after) {number : Nat} {run : EngineRun}
    (found : before.runs[number]? = some run) :
    ∃ run', after.runs[number]? = some run' ∧ RunMove before number run event after run' := by
  have inside : number < before.runs.length := (List.getElem?_eq_some_iff.mp found).1
  have kept : number < after.runs.length := by
    cases move <;> simp [withDocuments, withLook, withRun, withRegistry] <;> omega
  have present : after.runs[number]? = some after.runs[number] := List.getElem?_eq_getElem kept
  rcases move.run_cases present with ⟨former, found', run⟩ | ⟨rfl, -⟩
  · rw [found] at found'
    cases found'
    exact ⟨_, present, run⟩
  · omega

/-- Versions that were read stay read, so that a look may begin, or a run be scheduled, from a
version that is old by then. -/
theorem Step.seen (move : Step policy before event after) {document : Document}
    (seen : document ∈ before.seen) : document ∈ after.seen := by
  cases move with
  | read found => exact List.mem_cons_of_mem _ seen
  | _ => exact seen

/-- A version that was read by now was read before, or is the stored one and is read now. -/
theorem Step.seen_cases (move : Step policy before event after) {document : Document}
    (seen : document ∈ after.seen) :
    document ∈ before.seen ∨
      (event = .read document ∧ ∃ key, before.stored? key = some document) := by
  cases move with
  | @read key version found =>
    rcases List.mem_cons.mp seen with rfl | seen
    · exact .inr ⟨rfl, key, found⟩
    · exact .inl seen
  | _ => exact .inl seen

end DatasetSync.Engine
