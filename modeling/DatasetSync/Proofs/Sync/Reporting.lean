import DatasetSync.Proofs.Sync.Writing

/-!
# What a finished copy has reported

A copy that commits, or finds nothing to commit, leaves a stored status whose first report on
readiness tells how far the files of that status have come, and whose reports on all other
aspects are those that it has read, each in its place. The readiness that the copy ends with is
that of the first report.

That what the copy replaces is what it has read is a matter of the others: it holds if they
change documents only by the writes that a store offers to its clients. A copy that finds
nothing to commit claims nothing about the time after it has read.
-/

namespace DatasetSync

/-- Others change the documents of a store only by the writes that it offers to its clients. -/
def WriteAsClients (others : Backends → Backends → Prop) : Prop :=
  ∀ before after, others before after → after.documents = before.documents ∨
    ∃ now write, after.documents = before.documents.write now write

/-- A run that has read its document found it stored under its key, and has changed no document by
reading it. -/
theorem Turn.TakenBy.found {plan : SyncPlan} {run : ActiveRun} {turn : Turn} {latest : Document}
    (taken : turn.TakenBy run)
    (asked : turn.exchange? = some (plan.reading (some latest))) :
    turn.before.documents.get? plan.document.key = some latest ∧
      turn.after.documents = turn.before.documents := by
  have answered := taken.answered asked
  have found : (Except.ok (turn.before.documents.get? plan.document.key) :
      Except StoreError (Option Document)) = .ok (some latest) := congrArg Prod.fst answered
  have same : turn.before.documents = turn.after.documents :=
    congrArg (fun reply => reply.2.documents) answered
  exact ⟨Except.ok.inj found, same.symm⟩

namespace SyncPlan

variable {plan : SyncPlan} {others : Backends → Backends → Prop} {history : List Turn}
  {turn : Turn} {run : ActiveRun} {first backends : Backends} {before after : DocumentStore}

/-- The versions of a store are sound, and since the turns of a run, which have left sound
versions, no version has come back. -/
structure Steady (history : List Turn) (store : DocumentStore) : Prop where
  sound : store.Sound
  left : ∀ turn ∈ history, turn.after.documents.Sound ∧ turn.after.documents.Later store

/-- One operation of the store keeps this, whoever has made it. -/
theorem Steady.succession (steady : Steady history before)
    (succession : DocumentStore.Succession before after) : Steady history after where
  sound := steady.sound.succession succession
  left turn member :=
    ⟨(steady.left turn member).1, (steady.left turn member).2.trans succession.later⟩

/-- A turn that is one operation of the store keeps this, and is one more such turn. -/
theorem Steady.moved (turn : Turn) (steady : Steady history turn.before.documents)
    (succession : DocumentStore.Succession turn.before.documents turn.after.documents) :
    Steady (history ++ [turn]) turn.after.documents where
  sound := steady.sound.succession succession
  left other member := by
    rcases List.mem_append.mp member with former | new
    · exact (steady.succession succession).left other former
    · obtain rfl := List.mem_singleton.mp new
      exact ⟨steady.sound.succession succession, .refl _⟩

/-- While others only write as clients, a run stands in a steady store: each of its turns is one
operation of the store. -/
theorem Course.steady (sound : first.documents.Sound) (clients : WriteAsClients others)
    (course : plan.Course others first history run backends) :
    Steady history backends.documents := by
  induction course with
  | start => exact ⟨sound, by simp⟩
  | @work history pool pool' tree tree' backends backends' event past move effect ih =>
    have documents : backends'.documents = backends.documents :=
      past.hasMade.documents (.work move effect)
    refine ih.moved ⟨backends, backends', .worked event⟩ ?_
    exact .unchanged (Nat.le_of_eq (by rw [documents])) fun key => by rw [documents]
  | @call history tree backends call next past ih =>
    refine ih.moved ⟨backends, _, _⟩ ?_
    cases call with
    | document made => exact DocumentStore.succession_answer ih.sound.keyed made
    | object | resolve | clock => exact .unchanged (Nat.le_refl _) fun _ => rfl
  | conclude past ended ih => exact ih
  | cancel past ih => exact ih.moved ⟨_, _, .cancelled⟩ (.unchanged (Nat.le_refl _) fun _ => rfl)
  | change past change ih =>
    rcases clients _ _ change with same | ⟨now, write, written⟩
    · exact same ▸ ih
    · exact ih.succession (written ▸ DocumentStore.succession_write ih.sound.keyed now write)

/-- A version reports on a tree: it holds the tree, its first report on readiness tells how far
the files of the tree have come, and its reports on all other aspects are those of a former
version, each in its place. -/
structure Reports (version former : Document) (tree : FileTree) (condition : Condition) : Prop where
  files : version.files = tree
  first : version.status.bind Status.ready? = some condition
  tells : condition.Tells tree
  others : ∀ other : Condition, other.type ≠ Condition.readyType → ∀ i : Nat,
    version.statusOrInitial.conditions[i]? = some other ↔
      former.statusOrInitial.conditions[i]? = some other

/-- A version with the status that a run makes of a former one reports on the tree of the run. -/
theorem reports_of_commitStatus {version : Document} (former : Document) (tree : FileTree)
    (now : Timestamp) (status : version.status = some (commitStatus former.status tree now)) :
    ∃ condition, Reports version former tree condition ∧
      (commitStatus former.status tree now).ready?.any Condition.holds = condition.holds := by
  obtain ⟨condition, first, tells⟩ := tells_commitStatus former.status tree now
  refine ⟨condition, ?_, by rw [first, Option.any_some]⟩
  exact {
    files := by rw [Document.files, status]; rfl
    first := by rw [status]; exact first
    tells
    others := by
      intro other foreign i
      rw [Document.statusOrInitial, status]
      exact conditions_commitStatus former.status tree now foreign i }

/-- A copy that commits, or finds nothing to commit, leaves a stored version, by its patch or as
it has read it, that reports on the tree of the copy. The copy has committed as ready exactly if
the first report on readiness holds. All other reports are those of the version that the copy has
read, and that is the version which was stored until then, if others only write as clients. -/
theorem finished_copy_reports {document : Document} {sizing : Pool.Sizing} {result : RunOutcome}
    (course : (copying document sizing).Course others first history run backends)
    (ended : run.outcome? = some (.ok result))
    (finished : result = .unchanged ∨ ∃ ready, result = .committed ready) :
    ∃ turn ∈ history, ∃ latest version condition,
      (copying document sizing).reading (some latest) ∈ exchanges history ∧
      turn.after.documents.get? document.key = some version ∧
      Reports version latest run.tree condition ∧
      (∀ ready, result = .committed ready → ready = condition.holds) ∧
      (first.documents.Sound → WriteAsClients others →
        turn.before.documents.get? document.key = some latest) := by
  obtain ⟨ending, -⟩ := course.ending_of_finished ended finished
  obtain ⟨latest, token, now, accepts, ⟨rfl, trail, same⟩ | ⟨rfl, trail⟩⟩ :=
    ending.finished finished
  · obtain ⟨front, turn, back, rfl, -, asked, -⟩ := exists_turn (show _ = [] ++ _ :: _ from trail)
    obtain ⟨reader, -, taken⟩ := course.around rfl
    obtain ⟨found, kept⟩ := taken.found asked
    obtain ⟨condition, reports, -⟩ := reports_of_commitStatus latest run.tree now same
    exact ⟨turn, by simp, latest, latest, condition, by simp [trail], kept ▸ found, reports,
      by simp, fun _ _ => found⟩
  · obtain ⟨front, turn, back, former, rfl, read, patches, -⟩ := course.patches trail
    have stored := (patches.versions document.key).trans (if_pos rfl)
    obtain ⟨condition, reports, ready⟩ := reports_of_commitStatus latest run.tree now
      (show Document.status (DocumentStore.withToken { former with status := some _ }
        turn.before.documents.nextToken) = some _ from rfl)
    refine ⟨turn, by simp, latest, _, condition, by simp [trail], stored, reports, ?_, ?_⟩
    · rintro _ ⟨⟩
      exact ready
    · intro sound clients
      obtain ⟨writer, earlier, -⟩ := course.around rfl
      obtain ⟨ahead, reader, behind, rfl, -, asked, -⟩ :=
        exists_turn (show _ = [] ++ _ :: _ from read)
      obtain ⟨reading, -, taken⟩ := earlier.around rfl
      obtain ⟨found, kept⟩ := taken.found asked
      obtain ⟨soundThen, later⟩ := (earlier.steady sound clients).left reader (by simp)
      have same := later.same_version soundThen (kept ▸ found) patches.found
        (accepts.current.trans patches.current.symm)
      exact same.2 ▸ patches.found

/-- The copy of the one file leaves a stored version that says, by its first report on readiness,
that it is ready. -/
theorem heldDocument_reported : ∃ history run backends,
    (copying heldDocument .standard).Course (· = ·) heldBackends history run backends ∧
      run.outcome? = some (.ok (.committed true)) ∧
      ∃ turn ∈ history, ∃ latest version condition,
        turn.before.documents.get? heldDocument.key = some latest ∧
        turn.after.documents.get? heldDocument.key = some version ∧
        Reports version latest run.tree condition ∧ condition.holds = true := by
  obtain ⟨history, run, backends, course, ended⟩ := heldDocument_committed
  obtain ⟨turn, member, latest, version, condition, -, stored, reports, ready, replaced⟩ :=
    finished_copy_reports course ended (.inr ⟨true, rfl⟩)
  have sound : heldBackends.documents.Sound :=
    DocumentStore.sound_empty.succession
      (DocumentStore.succession_write DocumentStore.sound_empty.keyed "" (.insert dueDocument))
  have clients : WriteAsClients (· = ·) := fun before after same => .inl (congrArg _ same.symm)
  exact ⟨history, run, backends, course, ended, turn, member, latest, version, condition,
    replaced sound clients, stored, reports, (ready true rfl).symm⟩

end SyncPlan

end DatasetSync
