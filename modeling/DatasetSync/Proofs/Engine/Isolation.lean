import DatasetSync.Proofs.Controller.Confinement
import DatasetSync.Proofs.Engine.Courses
import DatasetSync.Proofs.Engine.LostUpdate

/-!
# Versions are isolated from each other

Only looks and runs touch objects, and each of them is made for a document. In the engine the
stores answer looks as they should, so that a look touches only objects of its own version, and so
does a run. Two versions whose names have no slashes have no key in common. Hence whatever is done
for one of them leaves the objects of the other one where they are, in every bucket and whatever
the store fails at.
-/

namespace DatasetSync.Engine

variable {policy : Policy} {history past recent : List Transition}
  {before after middle finish : Engine} {event : Event} {backends : Backends}
  {registry : Registry} {seen : List Document} {place : ObjectAddress}

/-- In the move the engine acts for the document: a look at it asks something, or a run moves that
was made for it. -/
def Transition.ActsFor (transition : Transition) (document : Document) : Prop :=
  match transition.event with
  | .asked look _ _ => ∃ stage, transition.before.looks[look]? = some ⟨document, stage⟩
  | .ran number =>
    ∃ run, transition.before.runs[number]? = some run ∧ run.active.plan.document = document
  | _ => False

/-- Every look is answered as it should be: what a listing brings lies under the prefix that was
asked for. -/
theorem Step.listsWithin {look : Nat} {control : Control} {answer : control.Answer}
    (move : Step policy before (.asked look control answer) after) :
    control.ListsWithin answer := by
  cases move with
  | call asking => exact Call.listsWithin_answer _ _
  | resume | launch | stop | await => trivial

/-- Every look has been answered as it should be, at each of its exchanges. -/
theorem Execution.listsWithin
    (execution : Execution policy (idle backends registry seen) history finish) (look : Nat) :
    ∀ exchange ∈ exchanges look history,
      Control.ListsWithin exchange.request exchange.answer := by
  induction execution with
  | start => simp
  | @step history before after event past move ih =>
    intro exchange member
    rw [exchanges_concat] at member
    rcases List.mem_append.mp member with former | last
    · exact ih exchange former
    have asked := Option.mem_toList.mp last
    cases event with
    | asked asker control answer =>
      obtain ⟨-, same⟩ := Option.ite_none_right_eq_some.mp asked
      cases same
      exact move.listsWithin
    | _ => cases asked

/-- A move touches only objects of the version of the document for which the engine acts. Whether it
is a call of a look or a turn of a run, a place whose key is of another version is as it was. -/
theorem Execution.holds_foreign
    (execution : Execution policy (idle backends registry seen) past before)
    (move : Step policy before event after)
    (foreign : ∀ document, (⟨before, event, after⟩ : Transition).ActsFor document →
      ¬ document.HasKey place.key) :
    after.backends.objects.Holds place ↔ before.backends.objects.Holds place := by
  cases move with
  | @call look document call next asking =>
    have leads := (coherent_of_execution execution).follows look document _ asking
    have stays := Policy.reconcile_stays.leads leads (execution.listsWithin look)
    have own : call.StaysWithin document := stays.1
    exact own.holds_iff (foreign document ⟨_, asking⟩) before.backends
  | @run number run active backends found move =>
    obtain ⟨first, turns, course, -⟩ := execution.followed (Nat.zero_le number) found
    exact course.holds_foreign move (foreign _ ⟨run, found, rfl⟩)
  | _ => exact .rfl

/-- As long as the engine acts only for other versions than the one of a document, the objects of
the document's version stay as they are, in every bucket: none is added and none is taken away.
This holds whatever is stored, whatever the store fails at, and whatever was done before. -/
theorem versions_isolated {other : Document} {bucket key : String}
    (earlier : Execution policy (idle backends registry seen) past middle)
    (execution : Execution policy middle recent finish) (flat : other.IsFlat)
    (apart : ∀ transition ∈ recent, ∀ document, transition.ActsFor document →
      document.IsFlat ∧
        (document.datasetName, document.spec.version) ≠ (other.datasetName, other.spec.version))
    (own : other.HasKey key) :
    finish.backends.objects.Holds ⟨bucket, key⟩ ↔ middle.backends.objects.Holds ⟨bucket, key⟩ := by
  induction execution with
  | start => exact .rfl
  | @step recent before after event past move ih =>
    have former := ih fun transition member =>
      apart transition (List.mem_append_left _ member)
    refine ((earlier.append past).holds_foreign move ?_).trans former
    intro document acts has
    obtain ⟨flat', distinct⟩ := apart _ List.mem_concat_self document acts
    exact distinct (has.unique flat' flat own)

/-- A document that is deleted and has the finalizer. -/
def leavingDocument : Document :=
  { bareDocument with metadata := { bareDocument.metadata with
      finalizers := some [Document.finalizer]
      deletionTimestamp := some "2024-05-01T00:00:00+00:00" } }

/-- The document of a version whose name starts with the name of the deleted one. -/
def stayingDocument : Document :=
  { bareDocument with spec := { bareDocument.spec with version := "v10" } }

/-- Both versions have an object. -/
def twinBackends : Backends :=
  { objects := (ObjectStore.empty.putObject "team-a" "dataset/ds/v1/a.txt").putObject "team-a"
      "dataset/ds/v10/a.txt"
    documents := .empty
    table := default
    now := "2024-05-01T00:00:00+00:00" }

/-- A look purges the deleted version. Its object is gone then, and the other version has its
object still. -/
theorem twin_isolated : ∃ recent finish,
    Execution default (idle twinBackends .empty [leavingDocument]) recent finish ∧
    ¬ finish.backends.objects.Holds ⟨"team-a", "dataset/ds/v1/a.txt"⟩ ∧
    finish.backends.objects.Holds ⟨"team-a", "dataset/ds/v10/a.txt"⟩ := by
  have begun := Execution.start.step
    (@Step.begin default (idle twinBackends .empty [leavingDocument]) leavingDocument
      List.mem_cons_self)
  have stopped := begun.step (@Step.stop default _ 0 leavingDocument _ _ rfl)
  have checked := stopped.step (@Step.call default _ 0 leavingDocument (.object _) _ rfl)
  have listed := checked.step (@Step.call default _ 0 leavingDocument (.object _) _ rfl)
  have removed := listed.step (@Step.call default _ 0 leavingDocument (.object _) _ rfl)
  have flat : stayingDocument.IsFlat := ⟨by decide, by decide⟩
  have own : stayingDocument.HasKey "dataset/ds/v10/a.txt" := ⟨"a.txt", by decide⟩
  have apart : leavingDocument.IsFlat ∧
      (leavingDocument.datasetName, leavingDocument.spec.version) ≠
        (stayingDocument.datasetName, stayingDocument.spec.version) :=
    ⟨⟨by decide, by decide⟩, by decide⟩
  refine ⟨_, _, removed, ?gone, (versions_isolated .start removed flat ?acts own).mpr ?held⟩
  case gone => unfold ObjectStore.Holds; decide
  case held => rfl
  case acts =>
    simp only [List.nil_append, List.cons_append, List.forall_mem_cons]
    refine ⟨fun document acts => acts.elim, ?_, ?_, ?_, ?_, List.forall_mem_nil _⟩
    all_goals
      rintro document ⟨stage, found⟩
      cases found
      exact apart

end DatasetSync.Engine
