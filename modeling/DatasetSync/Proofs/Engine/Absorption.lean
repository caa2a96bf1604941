import DatasetSync.Proofs.Engine.Readiness
import DatasetSync.Proofs.Engine.Statuses
import DatasetSync.Proofs.FileTree.Settled

/-!
# A file comes to its end once

The status of a document is rewritten by looks and by runs, in any order and by several at a time,
while the document is edited and calls succeed or fail. Still each file of it has one story: it is
entered as one that is being processed, and its copy ends well or badly. From then on its record
stays as it is, for as long as the targets of the looks list it, and no run that is made for a later
version copies it again. All this takes that no declared source bears the name of the inherited one.
-/

namespace DatasetSync

namespace SyncPlan

/-- The run makes no job for a source and a path. -/
def Skips (plan : SyncPlan) (source : QualifiedName) (path : String) : Prop :=
  ∀ group ∈ plan.groups, group.source.qualified plan.document.ns = source →
    ∀ file ∈ group.files, file.path = path →
      ∀ location, plan.jobFor? location group.source file = none

/-- A copy makes no job for a file that is not being processed. -/
theorem jobFor?_of_ended {plan : SyncPlan} {file : FileRecord} (copies : plan.mode = .copy)
    (ended : file.phase ≠ .processing) (location : Option Location) (source : Reference) :
    plan.jobFor? location source file = none := by
  simp [jobFor?, copies, ended]

end SyncPlan

/-- The run is a copy that was made for a version. -/
structure EngineRun.CopiesFor (run : EngineRun) (snapshot : Document) : Prop where
  copies : run.active.plan.mode = .copy
  made : run.active.plan.document.versionToken = snapshot.versionToken

namespace Engine

variable {policy : Policy} {history past recent : List Transition}
  {before after middle finish : Engine} {event : Event} {backends : Backends}
  {registry : Registry} {key : QualifiedName} {version version' snapshot : Document}
  {tree : FileTree} {source : QualifiedName} {file : FileRecord}

/-- The document of a key is only edited, and whenever a look at it begins, no declared source
bears the name of the inherited one. -/
@[mk_iff] structure Transition.OnlyEdits (transition : Transition) (key : QualifiedName) : Prop where
  edits : transition.event.Edits key
  plain : ∀ look document, transition.event = .began look document → document.key = key →
    ¬ document.Shadows

/-- A look that was given a version of the document was given one without such a source. -/
theorem plain_of_began (edited : ∀ transition ∈ history, transition.OnlyEdits version.key) {look : Nat}
    (begun : ∃ transition ∈ history, transition.event = .began look version) :
    ¬ version.Shadows := by
  obtain ⟨transition, member, began⟩ := begun
  exact (edited transition member).plain look version began rfl

/-- What a copy run starts from is orderly if the version is that it was made for. -/
theorem Coherent.orderly_of_copies (coherent : Coherent policy history before) {plan : SyncPlan}
    {origin : RunOrigin} (planned : Planned policy history before version plan origin)
    (copies : plan.mode = .copy) (edited : ∀ transition ∈ history, transition.OnlyEdits version.key)
    (orderly : version.files.Orderly version.ns) : plan.document.files.Orderly version.ns := by
  obtain ⟨-, same | ⟨look, now, lineage, begun, removed, same⟩⟩ := coherent.copies planned copies
  · rw [same]
    exact orderly
  · rw [same]
    exact Document.orderly_target (plain_of_began edited begun) orderly

/-- What a copy run starts from follows what the version follows that it was made for: it starts
from the tree of the version, or from one that a look has targeted for it. Such a look has found
nothing to remove, so that its target lists all that is recorded. -/
theorem Coherent.follows_of_copies (coherent : Coherent policy history before) {plan : SyncPlan}
    {origin : RunOrigin} (planned : Planned policy history before version plan origin)
    (copies : plan.mode = .copy) (edited : ∀ transition ∈ history, transition.OnlyEdits version.key)
    (follows : version.files.Follows version.ns source file) :
    plan.document.files.Follows version.ns source file := by
  obtain ⟨-, same | ⟨look, now, lineage, begun, removed, same⟩⟩ := coherent.copies planned copies
  · rw [same]
    exact follows
  · rw [same]
    obtain ⟨former, records, path, -⟩ := follows.becomes
    have declared := Document.deleted_eq_nil_iff.mp removed source file.path ⟨former, records, path⟩
    exact Document.follows_target (plain_of_began edited begun) follows
      (Document.lists_target_iff.mpr declared)

/-- A move keeps orderly files orderly, whether a look enters a target or a run writes its tree. -/
theorem StatusMove.orderly (moves : StatusMove policy history before event version tree)
    (coherent : Coherent policy history before)
    (edited : ∀ transition ∈ history, transition.OnlyEdits version.key)
    (orderly : version.files.Orderly version.ns) : tree.Orderly version.ns := by
  cases moves with
  | kept => exact orderly
  | entered begun enters => exact Document.orderly_target (plain_of_began edited begun) orderly
  | committed completions planned copies =>
    have base := coherent.orderly_of_copies planned copies edited orderly
    exact (SyncPlan.advances_recordAll completions _).orderly base

/-- A move keeps the record of a file as it is or settles it, as long as the targets of looks list
the file. -/
theorem StatusMove.follows (moves : StatusMove policy history before event version tree)
    (coherent : Coherent policy history before)
    (edited : ∀ transition ∈ history, transition.OnlyEdits version.key)
    (listed : ∀ target, event.Enters version.key target →
      target.files.Lists version.ns source file.path)
    (follows : version.files.Follows version.ns source file) :
    tree.Follows version.ns source file := by
  cases moves with
  | kept => exact follows
  | entered begun enters =>
    exact Document.follows_target (plain_of_began edited begun) follows (listed _ enters)
  | committed completions planned copies =>
    have base := coherent.follows_of_copies planned copies edited follows
    exact base.advances (SyncPlan.advances_recordAll completions _)

/-- Versions that lie under one key are in one namespace, since every version lies under its own
key. -/
theorem OpenExecution.key_eq (sound : backends.documents.Sound)
    (execution : OpenExecution policy (idle backends registry []) history finish)
    (stored : finish.stored? key = some version) : version.key = key :=
  (snapshots_of_openExecution sound execution).sound.keyed key version stored

/-- The recorded files of the document are orderly in every open execution in which it is only
edited, if it had no status at first. -/
theorem OpenExecution.orderly (sound : backends.documents.Sound)
    (bare : ∀ version, backends.documents.get? key = some version → version.status = none)
    (execution : OpenExecution policy (idle backends registry []) history finish)
    (edited : ∀ transition ∈ history, transition.OnlyEdits key)
    (stored : finish.stored? key = some version) : version.files.Orderly key.ns := by
  induction execution generalizing version with
  | start =>
    have empty : version.files = [] := by
      rw [Document.files, bare version stored]
      rfl
    rw [empty]
    exact FileTree.orderly_nil _
  | @step history before after event earlier move ih =>
    have former : ∀ transition ∈ history, transition.OnlyEdits key := fun transition member =>
      edited transition (List.mem_append_left _ member)
    obtain ⟨version', found, moves⟩ :=
      earlier.statusMove sound move (edited _ List.mem_concat_self).edits stored
    obtain rfl := earlier.key_eq sound found
    exact moves.orderly (coherent_of_openExecution earlier) former (ih former found)
  | change objects table earlier ih => exact ih edited stored

/-- The versions of a document that are stored, and those that were read since some time, follow a
file of it. -/
structure Traced (key : QualifiedName) (source : QualifiedName) (file : FileRecord)
    (recent : List Transition) (engine : Engine) : Prop where
  stored : ∀ version, engine.stored? key = some version →
    version.files.Follows key.ns source file
  read : ∀ transition ∈ recent, ∀ snapshot, transition.event = .read snapshot →
    snapshot.key = key → snapshot ∈ engine.seen ∧ snapshot.files.Follows key.ns source file

/-- From a time on at which a file is recorded the versions of its document follow it, as long as
the targets of looks list it. -/
theorem OpenExecution.traced (sound : backends.documents.Sound)
    (first : OpenExecution policy (idle backends registry []) past middle)
    (second : OpenExecution policy middle recent finish)
    (edited : ∀ transition ∈ past ++ recent, transition.OnlyEdits key)
    (listed : ∀ transition ∈ recent, ∀ target, transition.event.Enters key target →
      target.files.Lists key.ns source file.path)
    (stored : ∀ version, middle.stored? key = some version →
      version.files.Follows key.ns source file) : Traced key source file recent finish := by
  induction second with
  | start => exact ⟨stored, by simp⟩
  | @step recent before after event earlier move ih =>
    have whole := first.append earlier
    have former : ∀ transition ∈ past ++ recent, transition.OnlyEdits key := by
      intro transition member
      refine edited transition ?_
      rw [← List.append_assoc]
      exact List.mem_append_left _ member
    have last : Transition.OnlyEdits ⟨before, event, after⟩ key :=
      edited _ (List.mem_append_right _ List.mem_concat_self)
    have traced := ih former fun transition member =>
      listed transition (List.mem_append_left _ member)
    refine ⟨?stored, ?read⟩
    case stored =>
      intro version found
      obtain ⟨version', found', moves⟩ := whole.statusMove sound move last.edits found
      obtain rfl := whole.key_eq sound found'
      exact moves.follows (coherent_of_openExecution whole) former
        (listed _ List.mem_concat_self) (traced.stored version' found')
    case read =>
      intro transition member snapshot read own
      rcases List.mem_append.mp member with earlier | now
      · obtain ⟨seen, follows⟩ := traced.read transition earlier snapshot read own
        exact ⟨move.seen seen, follows⟩
      · obtain rfl := List.mem_singleton.mp now
        cases read
        cases move with
        | read found =>
          obtain rfl := whole.key_eq sound found
          subst own
          exact ⟨List.mem_cons_self, traced.stored _ found⟩
  | change objects table earlier ih =>
    have traced := ih edited listed
    exact ⟨traced.stored, traced.read⟩

/-- Once a file of a document has been entered, its copy comes to an end at most once. As long as
all targets by which looks replace the status list the file, it has one record, which stays as it is
or goes from being processed to one of the two ends. If the file has come to its end, a copy run
that is made for a version that was read later makes no job for it.

The run presents the token of the version that it was made for, so that what it writes follows what
that version has recorded. -/
theorem ends_absorb (sound : backends.documents.Sound)
    (bare : ∀ version, backends.documents.get? key = some version → version.status = none)
    (first : OpenExecution policy (idle backends registry []) past middle)
    (second : OpenExecution policy middle recent finish)
    (edited : ∀ transition ∈ past ++ recent, transition.OnlyEdits key)
    (listed : ∀ transition ∈ recent, ∀ target, transition.event.Enters key target →
      target.files.Lists key.ns source file.path)
    (stored : middle.stored? key = some version)
    (records : version.files.Records key.ns source file) :
    file.IsTracked ∧
      (∀ version', finish.stored? key = some version' →
        ∃ file', file.Becomes file' ∧ ∀ other,
          version'.files.Records key.ns source other ∧ other.path = file.path ↔ other = file') ∧
      (file.phase ≠ .processing → ∀ transition ∈ recent, ∀ snapshot,
        transition.event = .read snapshot → snapshot.key = key →
          ∀ (number : Nat) (run : EngineRun), finish.runs[number]? = some run →
            run.CopiesFor snapshot → run.active.plan.Skips source file.path) := by
  have former : ∀ transition ∈ past, transition.OnlyEdits key := fun transition member =>
    edited transition (List.mem_append_left _ member)
  have orderly := first.orderly sound bare former stored
  have follows : version.files.Follows key.ns source file :=
    ⟨orderly, file, records, rfl, .refl file⟩
  have traced : Traced key source file recent finish := by
    refine first.traced sound second edited listed fun version' found => ?_
    obtain rfl := Option.some.inj (stored.symm.trans found)
    exact follows
  refine ⟨orderly.tracked source file records, ?record, ?jobs⟩
  case record =>
    intro version' found
    exact (traced.stored version' found).exists_unique
  case jobs =>
    intro ended transition member snapshot read own number run found ⟨copies, made⟩
    have whole := first.append second
    have coherent := coherent_of_openExecution whole
    obtain ⟨seen, followed⟩ := traced.read transition member snapshot read own
    obtain ⟨document, seen', planned⟩ := coherent.planned number run found
    have plan := planned.document
    have same : document = snapshot := by
      refine whole.seen_unique sound seen seen' ?_
      rw [plan] at made
      exact made
    subst same
    subst own
    have base := coherent.follows_of_copies planned copies edited followed
    obtain ⟨groups, -⟩ := coherent.copies planned copies
    intro group listed named record inGroup path location
    have ns : run.active.plan.document.ns = document.ns := by rw [plan]; rfl
    rw [ns] at named
    rw [groups] at listed
    have single : record = file := base.eq ended ⟨group, listed, named, inGroup⟩ path
    exact SyncPlan.jobFor?_of_ended copies (single ▸ ended) location group.source

/-- A document that declares one file, with labels and finalizer and no status. -/
def singleDocument : Document :=
  { growingDocument with
    spec := { growingDocument.spec with
      fileGroups := [{
        source := { apiGroup := none, kind := Reference.datasourceKind, name := "raw", ns := none }
        paths := ["a.txt"] }] } }

/-- A store that holds the document, and in which its file can be copied. -/
def singleBackends : Backends :=
  { SyncPlan.dueBackends with documents := (DocumentStore.empty.insert singleDocument).2 }

/-- The document as it is first stored. -/
def singleVersion : Document := DocumentStore.withToken singleDocument "1"

/-- What is recorded of the document: the group of the inherited files, and the declared file. -/
def singleTree (file : FileRecord) : FileTree :=
  [⟨singleVersion.lineageReference, []⟩,
    ⟨FileTree.declaredReference ⟨"team-a", "raw"⟩, [file]⟩]

/-- The document after a look has entered the file. -/
def enteredVersion : Document :=
  { DocumentStore.withToken singleDocument "2" with
    status := some
      { conditions :=
          [.ready "2024-05-01T00:00:00+00:00" .false Condition.syncingReason "sync files."]
        files := singleTree (.blank "a.txt" .processing) } }

/-- The record of the file after it was copied. -/
def copiedRecord : FileRecord :=
  (FileRecord.blank "a.txt" .processing).settle "2024-05-01T00:00:00+00:00" (.ok ())

/-- The document after the file was copied. -/
def copiedVersion : Document :=
  { DocumentStore.withToken singleDocument "3" with
    status := some
      { conditions :=
          [.ready "2024-05-01T00:00:00+00:00" .true Condition.successReason ""]
        files := singleTree copiedRecord } }

/-- A look enters the file, and a run copies it. Every move of both is listed, and the version that
is stored at the end is computed. -/
theorem single_copied : ∃ history finish,
    Execution default (idle singleBackends .empty []) history finish ∧
    (∀ transition ∈ history, transition.OnlyEdits singleDocument.key) ∧
    finish.stored? singleDocument.key = some copiedVersion ∧ finish.runs.length = 1 := by
  have read := Execution.start.step
    (@Step.read default (idle singleBackends .empty []) singleDocument.key singleVersion rfl)
  have begun := read.step (@Step.begin default _ singleVersion List.mem_cons_self)
  have timed := begun.step (@Step.call default _ 0 singleVersion .clock _ rfl)
  have entered := timed.step
    (@Step.call default _ 0 singleVersion (.document (.patchStatus _ _ _)) _ rfl)
  have reread := entered.step (@Step.read default _ singleDocument.key enteredVersion rfl)
  have scheduled := reread.step (@Step.scheduleCopy default _ enteredVersion .standard
    List.mem_cons_self)
  have going := scheduled.step (@Step.run default _ 0 _ _ _ rfl (.work (.observe _) (.internal _ _)))
  have checked := going.step (@Step.run default _ 0 _ _ _ rfl
    (.work (.call (.object (.bucketExists "team-a")) _ _) (.called _ _ _)))
  have passed := checked.step (@Step.run default _ 0 _ _ _ rfl (.work (.observe _) (.internal _ _)))
  have located := passed.step (@Step.run default _ 0 _ _ _ rfl
    (.work (.call (.resolve _ _) _ _) (.called _ _ _)))
  have next := located.step (@Step.run default _ 0 _ _ _ rfl (.work (.observe _) (.internal _ _)))
  have queued := next.step (@Step.run default _ 0 _ _ _ rfl
    (.work (.enqueue _ _ rfl) (.internal _ _)))
  have started := queued.step (@Step.run default _ 0 _ _ _ rfl
    (.work (.start rfl rfl (by decide)) (.internal _ _)))
  have ended := started.step (@Step.run default _ 0 _ _ _ rfl
    (.work (.finish 0 _ (.ok ()) rfl) (.executed _ rfl)))
  have handed := ended.step (@Step.run default _ 0 _ _ _ rfl
    (.work (.deliver _ _ _ rfl) (.delivered _ _ _ _)))
  have concluded := handed.step (@Step.run default _ 0 _ _ _ rfl (.conclude _ _ rfl))
  have found := concluded.step (@Step.run default _ 0 _ _ _ rfl (.call _ _ _ _))
  have clocked := found.step (@Step.run default _ 0 _ _ _ rfl (.call _ _ _ _))
  have committed := clocked.step (@Step.run default _ 0 _ _ _ rfl (.call _ _ _ _))
  refine ⟨_, _, committed, ?edited, rfl, rfl⟩
  case edited =>
    have plain : ¬ singleVersion.Shadows := by
      rintro ⟨group, member, same⟩
      obtain rfl := List.mem_singleton.mp member
      revert same
      decide
    simp only [List.nil_append, List.cons_append, List.forall_mem_cons, Transition.onlyEdits_iff,
      Event.Edits, reduceCtorEq, Event.began.injEq, true_and, false_implies, implies_true, and_true,
      List.not_mem_nil]
    rintro look document ⟨-, rfl⟩ -
    exact plain

/-- Once the file was copied, a run that is made for the version with the copy makes no job for it,
and its record is still the one that the first run has made. -/
theorem single_absorbed : ∃ past recent middle finish run file,
    OpenExecution default (idle singleBackends .empty []) past middle ∧
    OpenExecution default middle recent finish ∧
    middle.stored? singleDocument.key = some copiedVersion ∧
    finish.runs[1]? = some run ∧ run.active.plan.mode = .copy ∧
    run.active.plan.Skips ⟨"team-a", "raw"⟩ "a.txt" ∧
    copiedVersion.files.Records "team-a" ⟨"team-a", "raw"⟩ file ∧ file = copiedRecord := by
  obtain ⟨past, middle, execution, edited, stored, single⟩ := single_copied
  have read := Execution.start.step
    (@Step.read default middle singleDocument.key copiedVersion stored)
  have scheduled := read.step (@Step.scheduleCopy default _ copiedVersion .standard
    List.mem_cons_self)
  have sound : singleBackends.documents.Sound :=
    DocumentStore.sound_empty.succession (DocumentStore.succession_write
      DocumentStore.sound_empty.keyed "2024-05-01T00:00:00+00:00" (.insert singleDocument))
  have bare : ∀ version, singleBackends.documents.get? singleDocument.key = some version →
      version.status = none := by
    intro version found
    obtain rfl : singleVersion = version := Option.some.inj found
    rfl
  have records : copiedVersion.files.Records "team-a" ⟨"team-a", "raw"⟩ copiedRecord := by
    refine ⟨⟨FileTree.declaredReference ⟨"team-a", "raw"⟩, [copiedRecord]⟩, ?_, rfl, ?_⟩
    · exact List.mem_cons_of_mem _ List.mem_cons_self
    · exact List.mem_cons_self
  have absorbed := ends_absorb sound bare execution.open scheduled.open ?edited ?listed stored records
  case edited =>
    refine List.forall_mem_append.mpr ⟨edited, ?_⟩
    simp only [List.nil_append, List.cons_append, List.forall_mem_cons, Transition.onlyEdits_iff,
      Event.Edits, reduceCtorEq, true_and, false_implies, implies_true, List.not_mem_nil]
  case listed =>
    simp only [List.nil_append, List.cons_append, List.forall_mem_cons, Event.Enters,
      reduceCtorEq, exists_false, false_implies, implies_true, List.not_mem_nil, true_and]
  obtain ⟨-, unchanged, skips⟩ := absorbed
  have ended : copiedRecord.phase ≠ .processing := by decide
  have present : (middle.runs ++ [(⟨.start (.copying copiedVersion .standard) false, .alone, false⟩ :
      EngineRun)])[1]? = some ⟨.start (.copying copiedVersion .standard) false, .alone, false⟩ := by
    rw [← single]
    exact List.getElem?_concat_length
  obtain ⟨file, becomes, only⟩ := unchanged copiedVersion stored
  refine ⟨past, _, middle, _, _, file, execution.open, scheduled.open, stored, present, rfl, ?skips,
    ((only file).mpr rfl).1, becomes.eq ended⟩
  case skips =>
    exact skips ended _ (List.mem_append_left _ List.mem_cons_self) copiedVersion rfl rfl 1 _
      present ⟨rfl, rfl⟩

end Engine

end DatasetSync
