import DatasetSync.Proofs.Controller.Marking
import DatasetSync.Proofs.Engine.Writes

/-!
# Finalizers and purges

A document that was marked deleted keeps the finalizer of the engine until its objects are
cleaned up. Only one kind of write of the engine takes the finalizer away: the one by which a
run concludes that has read its document as deleted. Any run does so, for whatever purpose it
was made; but only the removal run of a look at a deleted document comes after a purge.

Hence the finalizer does not guard the purge in all executions. It does so exactly in those
in which no other run gets its clearing write through before the document was purged.
-/

namespace DatasetSync

namespace Document

/-- The engine's finalizer is on the document. -/
def IsGuarded (document : Document) : Prop := finalizer ∈ document.finalizers

/-- Where the objects of the version lie: the bucket, and the prefix of their keys. -/
def home (document : Document) : ObjectAddress :=
  ⟨document.datasetNs, Layout.versionPrefix document.datasetName document.spec.version⟩

/-- A document that is marked gets the finalizer, and lives on if it did before. -/
theorem isGuarded_of_marked? {document marked : Document}
    (unmarked : document.marked? = some marked) :
    marked.IsGuarded ∧ marked.isDeleting = document.isDeleting := by
  have marks := marks_of_marked? unmarked
  refine ⟨marks.guarded, ?_⟩
  rw [marks.rest]
  rfl

end Document

namespace DocumentStore

/-- A stored version has the finalizer, and its key has no version with the finalizer
afterwards. -/
structure Loses (before after : DocumentStore) (version : Document) : Prop where
  stored : before.get? version.key = some version
  guarded : version.IsGuarded
  lost : ∀ next, after.get? version.key = some next → ¬ next.IsGuarded

variable {store after : DocumentStore} {version : Document}

/-- What loses its finalizer is not what is stored afterwards: a store without change loses
nothing. -/
theorem Loses.changed (loses : Loses store after version) :
    after.get? version.key ≠ store.get? version.key := by
  intro same
  exact loses.lost version (same.trans loses.stored) loses.guarded

/-- A patch takes no finalizer away, since it keeps the metadata. -/
theorem not_loses_patchStatus (key : QualifiedName) (token : String) (status : Status) :
    ¬ Loses store (store.patchStatus key token status).2 version := by
  intro loses
  rcases patchStatus_cases store key token status with ⟨-, -, same⟩ |
    ⟨stored, found, -, -, -, versions⟩
  · rw [same] at loses
    exact loses.changed rfl
  · have after := versions version.key
    by_cases own : key = version.key
    · rw [if_pos own] at after
      subst own
      obtain rfl : stored = version := Option.some.inj (found.symm.trans loses.stored)
      exact loses.lost _ after loses.guarded
    · rw [if_neg own] at after
      exact loses.changed after

/-- An update takes the finalizer from the version whose token it presents, if from any, and then
what it writes has no finalizer or releases the document. -/
theorem Loses.of_update {document : Document}
    (loses : Loses store (store.update document).2 version) :
    document.key = version.key ∧ version.versionToken = document.versionToken ∧
      document.metadata.ns ≠ none ∧
      (isReleased document = false →
        ¬ Document.IsGuarded
          (withToken { document with status := version.status } store.nextToken)) := by
  rcases update_cases store document with ⟨-, -, same | same⟩ |
    ⟨stored, found, current, named, -, -, versions⟩
  · rw [same] at loses
    exact absurd rfl loses.changed
  · rw [same] at loses
    exact absurd rfl loses.changed
  · have after := versions version.key
    by_cases own : document.key = version.key
    · obtain rfl : stored = version := by
        rw [own] at found
        exact Option.some.inj (found.symm.trans loses.stored)
      refine ⟨own, current, named, fun kept => ?_⟩
      rw [if_pos own, if_neg (by simp [kept])] at after
      exact loses.lost _ after
    · rw [if_neg own] at after
      exact absurd after loses.changed

/-- An update of a living document that has the finalizer takes no finalizer away. -/
theorem not_loses_update {document : Document} (living : document.isDeleting = false)
    (guarded : document.IsGuarded) : ¬ Loses store (store.update document).2 version := by
  intro loses
  obtain ⟨-, -, -, unguarded⟩ := loses.of_update
  exact unguarded (by simp [isReleased, living]) guarded

/-- An update without finalizers of a stored version that is deleted takes the finalizer
away, and the document with it. -/
theorem loses_unguarded {latest : Document} (named : latest.metadata.ns ≠ none)
    (deleting : latest.isDeleting = true) (own : latest.key = version.key)
    (current : version.versionToken = latest.versionToken)
    (stored : store.get? version.key = some version) (guarded : version.IsGuarded) :
    Loses store (store.update latest.unguarded).2 version := by
  refine ⟨stored, guarded, fun next after => ?_⟩
  rcases update_cases store latest.unguarded with ⟨error, failed, -⟩ |
    ⟨stored', found, -, -, -, -, versions⟩
  · rw [← own] at stored
    have succeeds : (store.update latest.unguarded).1 = _ :=
      update_of_current named stored current
    rw [failed] at succeeds
    cases succeeds
  · rw [versions, if_pos (by simpa using own), if_pos (by simp [isReleased, deleting])] at after
    cases after

end DocumentStore

namespace Engine

variable {policy : Policy} {before after finish : Engine} {event : Event}
  {past history : List Transition} {objects : ObjectStore} {table : BucketTable}
  {now : Timestamp} {registry : Registry} {version : Document}

/-- A write of the engine takes the finalizer from a version that was marked deleted. -/
structure Transition.Releases (transition : Transition) (version : Document) : Prop where
  engine : ∀ write, transition.event ≠ .wrote write
  deleting : version.isDeleting = true
  loses : DocumentStore.Loses transition.before.backends.documents
    transition.after.backends.documents version

/-- A look at the document, which had read it as deleted, has purged the place where the
objects of the version lie: it has carried the purge out to its good end. -/
def Purged (past : List Transition) (version : Document) : Prop :=
  ∃ look document first calls rest,
    (∃ transition ∈ past, transition.event = .began look document) ∧
    document.key = version.key ∧ document.home = version.home ∧ document.isDeleting = true ∧
    exchanges look past = first ++ calls.map Controlling.exchanged ++ rest ∧
    (Policy.purgeUntracked document document.reconcileDeleted.deleted).Leads calls
      (.done (.ok ()))

/-- No finalizer is taken away before the purge. -/
def ReleasesFollowPurges (history : List Transition) : Prop :=
  ∀ past transition recent version, history = past ++ transition :: recent →
    transition.Releases version → Purged past version

/-- A run has read the document as deleted, and the version that it is about to clear of
finalizers is still the stored one. -/
structure Clears (engine : Engine) (number : Nat) (version : Document) : Prop where
  run : ∃ (run : EngineRun) (latest : Document) (next : _), engine.runs[number]? = some run ∧
    run.active.stage = .concluding (.ask (.document (.update latest.unguarded)) next) ∧
    latest.isDeleting = true ∧ latest.metadata.ns ≠ none ∧ latest.key = version.key ∧
    version.versionToken = latest.versionToken
  stored : engine.stored? version.key = some version
  guarded : version.IsGuarded
  deleting : version.isDeleting = true

/-- A run is the one with which a look at a deleted document cleans up the place where the
objects of the version lie. -/
def Cleans (engine : Engine) (number : Nat) (version : Document) : Prop :=
  ∃ run look document stage, engine.runs[number]? = some run ∧ run.origin = .look look ∧
    engine.looks[look]? = some ⟨document, stage⟩ ∧ document.isDeleting = true ∧
    document.home = version.home

/-- No finalizer is taken away before the purge by a run other than the one with which a look
at a deleted document cleans up. -/
def OthersFollowPurges (history : List Transition) : Prop :=
  ∀ past transition recent number version, history = past ++ transition :: recent →
    transition.event = .ran number → transition.before.Clears number version →
      ¬ transition.before.Cleans number version → Purged past version

/-- A call of a look takes no finalizer away: its updates put labels and finalizer on a living
document, and its patches keep the metadata. -/
theorem Coherent.look_keeps (coherent : Coherent policy history before) {look : Nat}
    {document : Document} {call : DocumentCall}
    {next : call.Answer → Controlling (Except ReconcileError Next)}
    (asking : before.looks[look]? =
      some ⟨document, .asking (.ask (.call (.document call)) next)⟩) :
    ¬ DocumentStore.Loses before.backends.documents (before.backends.documents.answer call).2
      version := by
  have leads : (policy.reconcile document).Leads (exchanges look history)
      (.ask (.call (.document call)) next) := coherent.follows look document _ asking
  generalize exchanges look history = trail at leads
  cases Policy.looking_of_leads leads with
  | atCall spares => exact absurd rfl (spares call)
  | atMark living unmarked =>
    obtain ⟨guarded, same⟩ := Document.isGuarded_of_marked? unmarked
    exact DocumentStore.not_loses_update (same.trans living) guarded
  | atTarget living prepared removed snapshot =>
    exact DocumentStore.not_loses_patchStatus _ _ _

/-- A run takes a finalizer away only when it clears a document that it has read as deleted. -/
theorem clears_of_loses {run : ActiveRun} {trail : List (Exchange Calls)}
    {call : DocumentCall} {store : DocumentStore} (made : run.HasMade trail)
    (calls : run.documentCall? = some call)
    (loses : DocumentStore.Loses store (store.answer call).2 version) :
    ∃ (latest : Document) (next : _),
      run.stage = .concluding (.ask (.document (.update latest.unguarded)) next) ∧
      call = .update latest.unguarded ∧ latest.isDeleting = true := by
  unfold ActiveRun.documentCall? at calls
  split at calls
  · rename_i stage
    cases calls
    obtain ⟨tree, position⟩ := made.position stage
    cases position with
    | atRead => exact absurd rfl loses.changed
    | atRelease deleting => exact ⟨_, _, stage, rfl, deleting⟩
    | atWrite accepts => exact absurd loses (DocumentStore.not_loses_patchStatus _ _ _)
  · cases calls

/-- The engine takes a finalizer away exactly in the moves in which a run clears it. Of all calls of
the engine only the update of a deleted document can lose a finalizer, and only runs make such
calls. -/
theorem Coherent.releases_iff (coherent : Coherent policy history before)
    (move : Step policy before event after) :
    (⟨before, event, after⟩ : Transition).Releases version ↔
      ∃ number, event = .ran number ∧ before.Clears number version := by
  constructor
  · rintro ⟨engine, deleting, loses⟩
    have written : DocumentStore.Loses before.backends.documents (before.documentsAfter event)
        version := coherent.documents move ▸ loses
    cases move with
    | write write => exact absurd rfl (engine write)
    | @call look document call next asking =>
      cases call with
      | document call => exact absurd written (coherent.look_keeps asking)
      | object | resolve | clock => exact absurd rfl written.changed
    | @run number run active backends found move =>
      refine ⟨number, rfl, ?_⟩
      have called : (before.documentCall? (.ran number)) = run.active.documentCall? := by
        simp [documentCall?, found]
      simp only [documentsAfter, called] at written
      cases calls : run.active.documentCall? with
      | none =>
        rw [calls] at written
        exact absurd rfl written.changed
      | some call =>
        rw [calls] at written
        obtain ⟨latest, next, stage, rfl, read⟩ :=
          clears_of_loses (coherent.made number run found) calls written
        obtain ⟨own, current, named, -⟩ := written.of_update
        exact ⟨⟨run, latest, next, found, stage, read, named, own, current⟩, written.stored,
          written.guarded, deleting⟩
    | _ => exact absurd rfl written.changed
  · rintro ⟨number, rfl, clears⟩
    obtain ⟨run, latest, next, found, stage, deleting, named, own, current⟩ := clears.run
    refine ⟨by simp, clears.deleting, ?_⟩
    have called : before.documentCall? (.ran number) = some (.update latest.unguarded) := by
      simp [documentCall?, ActiveRun.documentCall?, found, stage]
    have written := coherent.documents move
    simp only [documentsAfter, called] at written
    rw [written]
    exact DocumentStore.loses_unguarded named deleting own current clears.stored clears.guarded

/-- A run that is about to clear a document has read it, and writes what it has read without its
finalizers. -/
theorem read_of_release {plan : SyncPlan} {tree : FileTree} {trail : List (Exchange Calls)}
    {document : Document} {next : Except StoreError Document → Calling (Except SyncError RunOutcome)}
    (position : plan.Concluding tree trail (.ask (.document (.update document)) next)) :
    ∃ latest : Document, document = latest.unguarded ∧
      plan.reading (some latest) ∈ trail := by
  cases position with
  | @atRelease latest next deleting => exact ⟨latest, rfl, List.mem_cons_self⟩

/-- The version that a run clears lies under the key of the document that the run was made
for. -/
theorem Execution.clears_own {backends : Backends} {seen : List Document} {number : Nat}
    {run : EngineRun} (sound : backends.documents.Sound)
    (execution : Execution policy (idle backends registry seen) past before)
    (found : before.runs[number]? = some run) (clears : before.Clears number version) :
    run.active.plan.document.key = version.key := by
  obtain ⟨run', latest, next, found', stage, -, -, own, -⟩ := clears.run
  rw [found] at found'
  cases found'
  have made := (coherent_of_execution execution).made number run found
  obtain ⟨tree, position⟩ := made.position stage
  obtain ⟨read, same, reading⟩ := read_of_release position
  have sameKey : latest.unguarded.key = read.unguarded.key := congrArg Document.key same
  have readKey : latest.key = read.key := sameKey
  rw [← execution.key_of_reading sound reading, ← readKey, own]

/-- The run with which a look at a deleted document cleans up comes after the purge. Where the look
started the run it had just purged; what it asked later comes behind that. -/
theorem Execution.purged_of_cleans {backends : Backends} {seen : List Document} {number : Nat}
    (sound : backends.documents.Sound)
    (execution : Execution policy (idle backends registry seen) past before)
    (clears : before.Clears number version) (cleans : before.Cleans number version) :
    Purged past version := by
  obtain ⟨run, look, document, stage, found, origin, present, deleting, home⟩ := cleans
  have coherent := coherent_of_execution execution
  obtain ⟨document', -, planned⟩ := coherent.planned number run found
  have made := planned.document
  rw [origin] at planned
  cases planned with
  | look present' earlier leads =>
    rw [present] at present'
    cases present'
    have own : document.key = version.key := by
      rw [← execution.clears_own sound found clears, made]
      rfl
    obtain ⟨-, began⟩ := coherent.begun look document stage present
    generalize run.active.plan = plan at leads
    cases Policy.looking_of_leads leads with
    | atRemoval living prepared =>
      rw [deleting] at living
      cases living
    | @atCleanup first calls _ _ purged =>
      obtain ⟨rest, whole⟩ := earlier
      exact ⟨look, document, first, calls, rest, began, own, home, deleting, whole.symm, purged⟩

/-- No finalizer is taken away before the purge, exactly if no run takes one away before the
purge other than those with which looks at deleted documents clean up. -/
theorem releases_follow_purges_iff {seen : List Document}
    (execution : Execution policy (idle ⟨objects, .empty, table, now⟩ registry seen) history
      finish) :
    ReleasesFollowPurges history ↔ OthersFollowPurges history := by
  constructor
  · rintro follows past transition recent number version rfl ran clears -
    obtain ⟨earlier, move, -⟩ := execution.around
    exact follows past transition recent version rfl
      (((coherent_of_execution earlier).releases_iff move).mpr ⟨number, ran, clears⟩)
  · rintro others past transition recent version rfl releases
    obtain ⟨earlier, move, -⟩ := execution.around
    obtain ⟨number, ran, clears⟩ :=
      ((coherent_of_execution earlier).releases_iff move).mp releases
    by_cases cleans : transition.before.Cleans number version
    · exact earlier.purged_of_cleans DocumentStore.sound_empty clears cleans
    · exact others past transition recent number version rfl ran clears cleans

/-- Whether a look at a deleted document begins. -/
def Event.beginsDeleted : Event → Bool
  | .began _ document => document.isDeleting
  | _ => false

/-- Without a look at a deleted document there is no purge, since a purge is part of a look that has
begun at a deleted version. -/
theorem not_purged (none : (past.any fun transition => transition.event.beginsDeleted) = false) :
    ¬ Purged past version := by
  rintro ⟨look, document, first, calls, rest, ⟨transition, member, began⟩, -, -, deleting, -⟩
  have living := List.any_eq_false.mp none transition member
  rw [began] at living
  exact living deleting

/-- A document that declares no files, of which the status is up to date, with labels and
finalizer. -/
def markedDocument : Document :=
  { metadata := { Metadata.empty with
      name := some "ds-v1", ns := some "team-a"
      labels := some ((OrderedMap.empty.insert Document.versionLabel "v1").insert
        Document.ownerLabel "ds")
      finalizers := some [Document.finalizer] }
    spec := { dataset := { apiGroup := none, kind := "Dataset", name := "ds", ns := none }
              version := "v1", inheritedFrom := none, fileGroups := [], released := false }
    status := some
      { conditions := []
        files := [⟨{ apiGroup := none, kind := Reference.versionedDatasetKind
                     name := Layout.lineageName "v1", ns := some "team-a" }, []⟩] } }

/-- The marked document as it is first stored. -/
def markedVersion : Document := DocumentStore.withToken markedDocument "1"

/-- The marked document after it was marked deleted. -/
def deletedVersion : Document :=
  DocumentStore.withToken
    { markedDocument with metadata := { markedDocument.metadata with
        deletionTimestamp := some "2024-05-01T00:00:00+00:00" } } "2"

/-- A look launches a copy run, the document is marked deleted, and the run ends by clearing it,
with no look at the deleted document. The run makes sure that its bucket is there, and has nothing
to copy. -/
theorem released_by_copy :
    ∃ past transition,
      (∃ finish, Execution default
        (idle ⟨.empty, .empty, default, "2024-05-01T00:00:00+00:00"⟩ .empty [])
        (past ++ [transition]) finish) ∧
      transition.Releases deletedVersion ∧ ¬ Purged past deletedVersion := by
  have created : Execution default
      (idle ⟨.empty, .empty, default, "2024-05-01T00:00:00+00:00"⟩ .empty []) _ _ :=
    Execution.start.step (.write (.insert markedDocument))
  have read := created.step (@Step.read default _ markedDocument.key markedVersion rfl)
  have begun := read.step (@Step.begin default _ markedVersion List.mem_cons_self)
  have clocked := begun.step (@Step.call default _ 0 markedVersion .clock _ rfl)
  have launched := clocked.step (@Step.launch default _ 0 markedVersion _ _ _ rfl)
  have deleted := launched.step (.write (.markDeleted markedDocument.key))
  have observed := deleted.step
    (@Step.run default _ 0 _ _ _ rfl (.work (.observe _) (.internal _ _)))
  have checked := observed.step
    (@Step.run default _ 0 _ _ _ rfl (.work (.call _ _ _) (.called _ _ _)))
  have ensured := checked.step
    (@Step.run default _ 0 _ _ _ rfl (.work (.call _ _ _) (.called _ _ _)))
  have ended := ensured.step (@Step.run default _ 0 _ _ _ rfl (.conclude _ _ rfl))
  have reread := ended.step (@Step.run default _ 0 _ _ _ rfl (.call _ _ _ _))
  have cleared := reread.step (@Step.run default _ 0 _ _ _ rfl (.call _ _ _ _))
  refine ⟨_, _, ⟨_, cleared⟩, ⟨?engine, rfl, rfl, ?guarded, ?lost⟩, not_purged rfl⟩
  case engine => intro write; nofun
  case guarded => exact List.mem_cons_self
  case lost => intro next found; exact nomatch (found : none = some next)

/-- A finalizer is taken away before the purge, by a copy run that re-reads a deleted document. -/
theorem finalizer_lost_before_purge :
    ∃ history finish, Execution default
        (idle ⟨.empty, .empty, default, "2024-05-01T00:00:00+00:00"⟩ .empty []) history finish ∧
      ¬ ReleasesFollowPurges history := by
  obtain ⟨past, transition, ⟨finish, execution⟩, releases, unpurged⟩ := released_by_copy
  exact ⟨_, finish, execution, fun follows =>
    unpurged (follows past transition [] deletedVersion rfl releases)⟩

/-- The copy run that takes a finalizer away before the purge is no run with which a look at
a deleted document cleans up. -/
theorem others_precede_purge_in_copy :
    ∃ history finish, Execution default
        (idle ⟨.empty, .empty, default, "2024-05-01T00:00:00+00:00"⟩ .empty []) history finish ∧
      ¬ OthersFollowPurges history := by
  obtain ⟨past, transition, ⟨finish, execution⟩, releases, unpurged⟩ := released_by_copy
  exact ⟨_, finish, execution, fun others =>
    unpurged ((releases_follow_purges_iff execution).mpr others past transition [] deletedVersion
      rfl releases)⟩

end Engine

end DatasetSync
