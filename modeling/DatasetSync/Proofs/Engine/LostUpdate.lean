import DatasetSync.Proofs.Engine.Writes

/-!
# No update is lost

A write that names a version by its token replaces that very version or none. What is stored
afterwards is said in full: an update brings spec and metadata and keeps the status that was
stored, a patch brings the status and keeps the rest, and the new version bears a fresh token.

Since a token names one version for all time, a run that has committed its status has written
it over the version that it was made for: from the moment at which that version was read to
the moment of the commit the document was not written by anybody else. Of several runs that
were made for one version, only one can therefore commit.

The laws hold for every execution from an empty document store. There may be any number of
looks and runs, for the same document too, and other clients may write what they like.
-/

namespace DatasetSync

namespace DocumentCall

/-- The key and the token that a write presents; nothing for a call that does not write. -/
def presents? : DocumentCall → Option (QualifiedName × Option String)
  | .get _ => none
  | .update document => some (document.key, document.versionToken)
  | .patchStatus key token _ => some (key, some token)

/-- The call writes, and does so with success. -/
def Succeeds (store : DocumentStore) : DocumentCall → Prop
  | .get _ => False
  | .update document => ∃ updated, (store.update document).1 = .ok updated
  | .patchStatus key token status => (store.patchStatus key token status).1 = .ok ()

/-- What a write that succeeds leaves under its key, where `former` was stored. Metadata, spec
and status are named one by one, so that neither side can lose any of them. A document that is
being deleted and that an update leaves without finalizers is taken away. -/
def leaves? (former : Document) (fresh : String) : DocumentCall → Option Document
  | .get _ => some former
  | .update document =>
    if document.metadata.deletionTimestamp ≠ none ∧ document.metadata.finalizers.getD [] = [] then
      none
    else some {
      metadata := { document.metadata with resourceVersion := some fresh }
      spec := document.spec
      status := former.status }
  | .patchStatus _ _ status => some {
      metadata := { former.metadata with resourceVersion := some fresh }
      spec := former.spec
      status := some status }

end DocumentCall

namespace DocumentStore

/-- The version of a key that bears a token is replaced by what a write leaves in its place, and
nothing else is touched. -/
structure Replaces (before after : DocumentStore) (call : DocumentCall) (key : QualifiedName)
    (token : Option String) : Prop where
  /-- The version with the token was the stored one, and its place is taken by what was written. -/
  current : ∃ former, before.get? key = some former ∧ former.versionToken = token ∧
    after.get? key = call.leaves? former before.nextToken
  others : ∀ other, other ≠ key → after.get? other = before.get? other
  fresh : ∀ version, after.get? key = some version →
    version.versionToken = some before.nextToken

/-- The store takes a document away exactly if it is being deleted and has no finalizers left,
whether those are absent or an empty list. -/
theorem isReleased_iff (document : Document) :
    isReleased document = true ↔
      document.metadata.deletionTimestamp ≠ none ∧ document.metadata.finalizers.getD [] = [] := by
  simp [isReleased, Document.isDeleting, Document.finalizers, Option.isSome_iff_ne_none]

/-- What a successful write leaves in place of a version that it keeps bears the fresh token. -/
theorem versionToken_of_leaves {call : DocumentCall} {key : QualifiedName} {token : Option String}
    {former version : Document} {fresh : String} (presented : call.presents? = some (key, token))
    (left : call.leaves? former fresh = some version) : version.versionToken = some fresh := by
  cases call with
  | get key => cases presented
  | update document =>
    rw [DocumentCall.leaves?] at left
    split at left
    · cases left
    · cases left
      rfl
  | patchStatus key token status =>
    cases left
    rfl

/-- A write that succeeds replaces the version that it presents. Either write is inverted once, by
the law that says how it ends; a write that was refused contradicts its success. -/
theorem replaces_of_succeeds {store : DocumentStore} {call : DocumentCall} {key : QualifiedName}
    {token : Option String} (presented : call.presents? = some (key, token))
    (succeeded : call.Succeeds store) : Replaces store (store.answer call).2 call key token := by
  have replaced : (∃ former, store.get? key = some former ∧ former.versionToken = token ∧
        (store.answer call).2.get? key = call.leaves? former store.nextToken) ∧
      ∀ other, other ≠ key → (store.answer call).2.get? other = store.get? other := by
    cases call with
    | get key => cases succeeded
    | update document =>
      cases presented
      obtain ⟨updated, succeeded⟩ := succeeded
      rcases update_cases store document with ⟨error, failed, -⟩ |
        ⟨former, found, current, -, -, -, versions⟩
      · rw [failed] at succeeded
        cases succeeded
      · refine ⟨⟨former, found, current, ?_⟩, fun other distinct =>
          (versions other).trans (if_neg (Ne.symm distinct))⟩
        rw [DocumentCall.leaves?, answer, versions, if_pos rfl]
        exact if_congr (isReleased_iff document) rfl rfl
    | patchStatus key token status =>
      cases presented
      rcases patchStatus_cases store key token status with ⟨error, failed, -⟩ |
        ⟨former, found, current, -, -, versions⟩
      · rw [DocumentCall.Succeeds, failed] at succeeded
        cases succeeded
      · exact ⟨⟨former, found, current, (versions key).trans (if_pos rfl)⟩, fun other distinct =>
          (versions other).trans (if_neg (Ne.symm distinct))⟩
  obtain ⟨⟨former, found, current, left⟩, others⟩ := replaced
  refine ⟨⟨former, found, current, left⟩, others, fun version present => ?_⟩
  exact versionToken_of_leaves presented (left.symm.trans present)

/-- What a store held before and holds after, it held in between: a version that is gone does not
come back. -/
theorem Later.held_between {first second third : DocumentStore} {key : QualifiedName}
    {version : Document} (sound : first.Sound) (sooner : Later first second)
    (later : Later second third) (found : first.get? key = some version)
    (found' : third.get? key = some version) : second.get? key = some version := by
  obtain ⟨number, bound, numbered⟩ := sound.numbered key version found
  exact later.held key version number found' numbered (Nat.le_trans bound sooner.issued)

/-- A version that was replaced under its key is not held any more, now or at any later time. -/
theorem Later.not_replaced {first second third : DocumentStore} {key : QualifiedName}
    {version : Document} {call : DocumentCall} {token : Option String} (sound : first.Sound)
    (replaced : Replaces first second call key token) (sooner : Later first second)
    (later : Later second third) (found : first.get? key = some version) :
    third.get? key ≠ some version := by
  intro found'
  have held : second.get? key = some version := sooner.held_between sound later found found'
  exact sound.next_unused found (replaced.fresh version held)

end DocumentStore

namespace Engine

variable {policy : Policy} {start middle before after finish : Engine} {event : Event}
  {past recent history : List Transition} {objects : ObjectStore} {table : BucketTable}
  {now : Timestamp} {registry : Registry}

/-- The write under a token that is made in a move, by the engine or by another client. -/
def guardedWrite? (engine : Engine) : Event → Option DocumentCall
  | .wrote (.update document) => some (.update document)
  | .wrote (.patchStatus key token status) => some (.patchStatus key token status)
  | event => engine.documentCall? event

/-- A move that makes a write under a token does to the documents what that write does. -/
theorem documentsAfter_guardedWrite {call : DocumentCall}
    (write : before.guardedWrite? event = some call) :
    before.documentsAfter event = (before.backends.documents.answer call).2 := by
  unfold guardedWrite? at write
  split at write
  · cases write
    rfl
  · cases write
    rfl
  · rename_i other other'
    unfold documentsAfter
    split
    · rename_i written
      cases written <;> simp_all [documentCall?]
    · rw [write]
      rfl

/-- A run that commits in a move wrote its status in it under the token of the version that
it was made for. -/
structure CommitsAt (plan : SyncPlan) (number : Nat) (patch : Transition) : Prop where
  ran : patch.event = .ran number
  wrote : ∃ token status, plan.document.versionToken = some token ∧
    patch.before.guardedWrite? patch.event =
      some (.patchStatus plan.document.key token status) ∧
    (DocumentCall.patchStatus plan.document.key token status).Succeeds
      patch.before.backends.documents

/-- Between the moment at which its snapshot was read and its commit, a run was undisturbed:
the snapshot was the stored version all the time. -/
structure Undisturbed (history : List Transition) (number : Nat) (plan : SyncPlan)
    (snapshot : Document) : Prop where
  /-- The plan was made for the snapshot; only a status may have been put into it. -/
  made : plan.document = { snapshot with status := plan.document.status }
  kept : ∃ earlier read between patch recent,
    history = earlier ++ read :: between ++ patch :: recent ∧
      read.event = .read snapshot ∧ CommitsAt plan number patch ∧
      patch.before.stored? snapshot.key = some snapshot ∧
      ∀ transition ∈ read :: between,
        transition.before.stored? snapshot.key = some snapshot ∧
          transition.after.stored? snapshot.key = some snapshot

/-- A run has come to its end and has committed its status. -/
def HasCommitted (engine : Engine) (number : Nat) (plan : SyncPlan) : Prop :=
  ∃ run ready, engine.runs[number]? = some run ∧ run.active.plan = plan ∧
    run.active.outcome? = some (.ok (.committed ready))

/-- No update was lost on the way to a state. -/
structure NoUpdateLost (history : List Transition) (engine : Engine) : Prop where
  /-- A write that succeeds replaces the stored version whose token it presents, by what it
  brings. -/
  guarded : ∀ transition ∈ history, ∀ call key token,
    transition.before.guardedWrite? transition.event = some call →
    call.presents? = some (key, token) → call.Succeeds transition.before.backends.documents →
      DocumentStore.Replaces transition.before.backends.documents
        transition.after.backends.documents call key token
  /-- Versions that were stored at any times and bear one token are one version. -/
  named : ∀ transition ∈ history, ∀ transition' ∈ history, ∀ key key' version version',
    transition.after.stored? key = some version →
    transition'.after.stored? key' = some version' →
    version.versionToken = version'.versionToken → key = key' ∧ version = version'
  /-- A run that has committed was undisturbed since the version was read that it was made
  for. -/
  undisturbed : ∀ number plan, engine.HasCommitted number plan →
    ∃ snapshot, Undisturbed history number plan snapshot
  /-- Of the runs that were made for one token, at most one has committed. -/
  once : ∀ number number' plan plan', engine.HasCommitted number plan →
    engine.HasCommitted number' plan' →
    plan.document.versionToken = plan'.document.versionToken → number = number'

/-- A version that was read while the engine worked was the stored one in some move, by which it was
read. -/
theorem Execution.read_of_seen {backends : Backends} (sound : backends.documents.Sound)
    (execution : Execution policy (idle backends registry []) history finish)
    {document : Document} (seen : document ∈ finish.seen) :
    ∃ earlier read recent, history = earlier ++ read :: recent ∧ read.event = .read document ∧
      read.before.stored? document.key = some document := by
  induction execution with
  | start => simp [idle] at seen
  | @step history before after event past move ih =>
    rcases move.seen_cases seen with former | ⟨rfl, key, found⟩
    · obtain ⟨earlier, read, recent, rfl, read', stored⟩ := ih former
      exact ⟨earlier, read, recent ++ [⟨before, event, after⟩], by simp, read', stored⟩
    · have own : document.key = key := (past.sound sound).keyed key document found
      subst own
      exact ⟨history, _, [], rfl, rfl, found⟩

/-- A run that has committed did so in some move, under the token of the document that it was made
for. -/
theorem Execution.commit {backends : Backends} {seen : List Document}
    (execution : Execution policy (idle backends registry seen) history finish) {number : Nat}
    {plan : SyncPlan} (committed : finish.HasCommitted number plan) :
    ∃ past patch recent, history = past ++ patch :: recent ∧ CommitsAt plan number patch ∧
      ∃ run, patch.before.runs[number]? = some run ∧ run.active.plan = plan := by
  obtain ⟨run, ready, found, rfl, outcome⟩ := committed
  obtain ⟨token, status, snapshot, written⟩ :=
    ((coherent_of_execution execution).made number run found).committed outcome
  obtain ⟨past, patch, recent, rfl, ran, former, next, present, stage, succeeded⟩ :=
    exists_of_mem_runExchanges written
  obtain ⟨earlier, move, later⟩ := execution.around
  obtain ⟨run', found', plan, -⟩ :=
    earlier.run_kept ((Execution.start.step move).append later) present
  rw [found] at found'
  cases found'
  refine ⟨past, patch, recent, rfl, ⟨ran, token, status, snapshot, ?_, succeeded⟩,
    former, present, plan.symm⟩
  rw [ran]
  simp [guardedWrite?, documentCall?, present, ActiveRun.documentCall?, stage, SyncPlan.writing]

/-- Between the reading of its snapshot and its commit, a run was undisturbed. The version that the
patch replaces bears the token of the snapshot, so it is the snapshot; and what was stored at both
ends was stored in between. -/
theorem Execution.undisturbed {backends : Backends} (sound : backends.documents.Sound)
    (execution : Execution policy (idle backends registry []) history finish) {number : Nat}
    {plan : SyncPlan} (committed : finish.HasCommitted number plan) :
    ∃ snapshot, Undisturbed history number plan snapshot := by
  obtain ⟨past, patch, recent, rfl, commits, run, found, rfl⟩ := execution.commit committed
  obtain ⟨toPatch, -, -⟩ := execution.around
  obtain ⟨snapshot, seen, planned⟩ := (coherent_of_execution toPatch).planned number run found
  obtain ⟨earlier, read, between, rfl, isRead, stored⟩ := toPatch.read_of_seen sound seen
  obtain ⟨toRead, moveRead, fromRead⟩ := toPatch.around
  have made := planned.document
  have sameKey : run.active.plan.document.key = snapshot.key := by rw [made]; rfl
  have sameToken : run.active.plan.document.versionToken = snapshot.versionToken := by
    rw [made]; rfl
  have soundRead := toRead.sound sound
  have segment : Execution policy read.before (read :: between) patch.before :=
    (Execution.start.step moveRead).append fromRead
  have readToPatch := toRead.later sound segment
  have atPatch : patch.before.stored? snapshot.key = some snapshot := by
    obtain ⟨token, status, presented, wrote, succeeded⟩ := commits.wrote
    have replaced := DocumentStore.replaces_of_succeeds rfl succeeded
    obtain ⟨version, current, token', -⟩ := replaced.current
    obtain ⟨-, same⟩ := readToPatch.same_version soundRead stored current
      (by rw [token', ← presented, sameToken])
    rw [sameKey] at current
    rw [same]
    exact same ▸ current
  refine ⟨snapshot, made, earlier, read, between, patch, recent, rfl, isRead, commits, atPatch, ?_⟩
  intro transition member
  obtain ⟨before, after, within⟩ := List.append_of_mem member
  rw [within] at segment
  obtain ⟨first, move, second⟩ := segment.around
  have toTransition := toRead.append first
  have toNext := first.step move
  constructor
  · exact (toRead.later sound first).held_between soundRead
      (toTransition.later sound ((Execution.start.step move).append second)) stored atPatch
  · exact (toRead.later sound toNext).held_between soundRead
      ((toRead.append toNext).later sound second) stored atPatch

/-- After a commit no other run commits under the same token: the version that bears it was
replaced, and no version bears it again. -/
theorem Execution.not_committed_again {backends : Backends} (sound : backends.documents.Sound)
    {seen : List Document} {between : List Transition} {patch patch' : Transition}
    (execution : Execution policy (idle backends registry seen)
      (past ++ patch :: between ++ patch' :: recent) finish)
    {plan plan' : SyncPlan} {number number' : Nat} (commits : CommitsAt plan number patch)
    (commits' : CommitsAt plan' number' patch') :
    plan.document.versionToken ≠ plan'.document.versionToken := by
  intro same
  obtain ⟨toPatch', -, -⟩ := execution.around
  obtain ⟨toPatch, move, second⟩ := toPatch'.around
  obtain ⟨token, status, presented, wrote, succeeded⟩ := commits.wrote
  obtain ⟨token', status', presented', wrote', succeeded'⟩ := commits'.wrote
  have replaced := DocumentStore.replaces_of_succeeds rfl succeeded
  have replaced' := DocumentStore.replaces_of_succeeds rfl succeeded'
  obtain ⟨version, found, bears, -⟩ := replaced.current
  obtain ⟨version', found', bears', -⟩ := replaced'.current
  have soundPatch := toPatch.sound sound
  have sooner := toPatch.later sound (Execution.start.step move)
  have later := (toPatch.step move).later sound second
  obtain ⟨sameKey, rfl⟩ := (sooner.trans later).same_version soundPatch found found'
    (by rw [bears, bears', ← presented, ← presented', same])
  rw [← sameKey] at found'
  rw [← documentsAfter_guardedWrite wrote,
    ← (coherent_of_execution toPatch).documents move] at replaced
  exact sooner.not_replaced soundPatch replaced later found found'

/-- Of the runs that were made for one token, at most one has committed. Two commits would stand
in the history one after the other, and the second one would present a token that is no longer
stored. -/
theorem Execution.committed_once {backends : Backends} (sound : backends.documents.Sound)
    {seen : List Document}
    (execution : Execution policy (idle backends registry seen) history finish)
    {number number' : Nat} {plan plan' : SyncPlan} (committed : finish.HasCommitted number plan)
    (committed' : finish.HasCommitted number' plan')
    (same : plan.document.versionToken = plan'.document.versionToken) : number = number' := by
  obtain ⟨past, patch, recent, rfl, commits, -⟩ := execution.commit committed
  obtain ⟨past', patch', recent', whole, commits', -⟩ := execution.commit committed'
  have apart : patch = patch' → number = number' := by
    rintro rfl
    have ran := commits.ran.symm.trans commits'.ran
    cases ran
    rfl
  rcases List.append_eq_append_iff.mp whole with
    ⟨shift, rfl, rest⟩ | ⟨shift, rfl, rest⟩
  · rcases List.cons_eq_append_iff.mp rest with ⟨-, rest⟩ | ⟨between, rfl, rfl⟩
    · cases rest
      exact apart rfl
    · have reordered : Execution policy (idle backends registry seen)
          (past ++ patch :: between ++ patch' :: recent') finish := by simpa using execution
      exact absurd same (reordered.not_committed_again sound commits commits')
  · rcases List.cons_eq_append_iff.mp rest with ⟨-, rest⟩ | ⟨between, rfl, rfl⟩
    · cases rest
      exact apart rfl
    · have reordered : Execution policy (idle backends registry seen)
          (past' ++ patch' :: between ++ patch :: recent) finish := by simpa using execution
      exact absurd same.symm (reordered.not_committed_again sound commits' commits)

/-- The store after a move is sound, and the store after that move or a later one is later. -/
theorem Execution.later_of_mem {backends : Backends} (sound : backends.documents.Sound)
    {seen : List Document} {transition transition' : Transition}
    (execution : Execution policy (idle backends registry seen) (past ++ transition :: recent)
      finish) (member : transition' ∈ transition :: recent) :
    transition.after.backends.documents.Sound ∧
      DocumentStore.Later transition.after.backends.documents
        transition'.after.backends.documents := by
  obtain ⟨earlier, move, later⟩ := execution.around
  have next := earlier.step move
  refine ⟨next.sound sound, ?_⟩
  rcases List.mem_cons.mp member with rfl | member
  · exact .refl _
  · obtain ⟨between, rest, rfl⟩ := List.append_of_mem member
    obtain ⟨first, move', -⟩ := later.around
    exact next.later sound (first.step move')

/-- Versions that were stored at any times and bear one token are one version. A token is given out
once, and a version does not change under its token. -/
theorem Execution.named {backends : Backends} (sound : backends.documents.Sound)
    {seen : List Document}
    (execution : Execution policy (idle backends registry seen) history finish)
    {transition transition' : Transition} (member : transition ∈ history)
    (member' : transition' ∈ history) {key key' : QualifiedName} {version version' : Document}
    (found : transition.after.stored? key = some version)
    (found' : transition'.after.stored? key' = some version')
    (same : version.versionToken = version'.versionToken) : key = key' ∧ version = version' := by
  obtain ⟨past, recent, rfl⟩ := List.append_of_mem member
  rcases List.mem_append.mp member' with before | notBefore
  · obtain ⟨past', between, rfl⟩ := List.append_of_mem before
    have reordered : Execution policy (idle backends registry seen)
        (past' ++ transition' :: (between ++ transition :: recent)) finish := by
      simpa using execution
    obtain ⟨soundAfter, later⟩ := reordered.later_of_mem sound
      (List.mem_cons_of_mem _ (List.mem_append_right _ List.mem_cons_self))
    obtain ⟨sameKey, sameVersion⟩ := later.same_version soundAfter found' found same.symm
    exact ⟨sameKey.symm, sameVersion.symm⟩
  · obtain ⟨soundAfter, later⟩ := execution.later_of_mem sound notBefore
    exact later.same_version soundAfter found found' same

/-- Writes under a token are not lost, whatever the order of the moves. A write that was answered
well has stored what it presented over the version that bore the token, and nobody has written in
between. -/
theorem no_update_lost
    (execution : Execution policy (idle ⟨objects, .empty, table, now⟩ registry []) history finish) :
    NoUpdateLost history finish := by
  have sound : (DocumentStore.empty).Sound := DocumentStore.sound_empty
  refine ⟨?guarded, ?named, ?undisturbed, ?once⟩
  case guarded =>
    intro transition member call key token write presented succeeded
    obtain ⟨past, recent, rfl⟩ := List.append_of_mem member
    obtain ⟨earlier, move, -⟩ := execution.around
    rw [(coherent_of_execution earlier).documents move, documentsAfter_guardedWrite write]
    exact DocumentStore.replaces_of_succeeds presented succeeded
  case named =>
    intro transition member transition' member' key key' version version' found found' same
    exact execution.named sound member member' found found' same
  case undisturbed =>
    intro number plan committed
    exact execution.undisturbed sound committed
  case once =>
    intro number number' plan plan' committed committed' same
    exact execution.committed_once sound committed committed' same

/-- A document that declares no files. -/
def bareDocument : Document :=
  { metadata := { Metadata.empty with name := some "ds-v1", ns := some "team-a" }
    spec := { dataset := { apiGroup := none, kind := "Dataset", name := "ds", ns := none }
              version := "v1", inheritedFrom := none, fileGroups := [], released := false }
    status := none }

/-- A document is created and read, and a copy run that is made for it commits: it finds nothing
to copy and reports readiness. What is stored then is the created document with that report, under
the second token. -/
theorem no_update_lost_after_commit :
    ∃ history finish,
      Execution default (idle ⟨.empty, .empty, default, "2024-05-01T00:00:00+00:00"⟩ .empty [])
        history finish ∧
      finish.HasCommitted 0 (.copying (DocumentStore.withToken bareDocument "1") .standard) ∧
      finish.stored? bareDocument.key = some {
        metadata := { bareDocument.metadata with resourceVersion := some "2" }
        spec := bareDocument.spec
        status := some {
          conditions := [⟨"Ready", .true, some "2024-05-01T00:00:00+00:00", "FileSyncSuccess", ""⟩]
          files := [] } } ∧
      NoUpdateLost history finish := by
  have created : Execution default
      (idle ⟨.empty, .empty, default, "2024-05-01T00:00:00+00:00"⟩ .empty []) _ _ :=
    Execution.start.step (.write (.insert bareDocument))
  have read := created.step (@Step.read default _ bareDocument.key
    (DocumentStore.withToken bareDocument "1") rfl)
  have scheduled := read.step (@Step.scheduleCopy default _
    (DocumentStore.withToken bareDocument "1") .standard List.mem_cons_self)
  have ended := scheduled.step (@Step.run default _ 0 _ _ _ rfl (.conclude _ _ rfl))
  have reread := ended.step (@Step.run default _ 0 _ _ _ rfl (.call _ _ _ _))
  have clocked := reread.step (@Step.run default _ 0 _ _ _ rfl (.call _ _ _ _))
  have patched := clocked.step (@Step.run default _ 0 _ _ _ rfl (.call _ _ _ _))
  exact ⟨_, _, patched, ⟨_, true, rfl, rfl, rfl⟩, rfl, no_update_lost patched⟩

end Engine

end DatasetSync
