import DatasetSync.Proofs.Program.Trail

/-!
# How far a look can come

A look at a document takes one of a few ways, and on each way it asks for few things. Every
position at which it can stand is listed in `Looking`, with what it has asked before. The
writes of a look, the runs it starts and what it has done before it starts them are read
off this list.

The list speaks about the version that the look was given, whether or not that version is
still the stored one. Objects are touched by looks at deleted documents, which purge; a look at a
living one touches objects only by the runs that it starts.
-/

namespace DatasetSync

/-- What a look asks neither copies nor removes an object, unless it starts a run. -/
def Control.SparesObjects : Control → Prop
  | .call made => made.SparesObjects
  | _ => True

/-- A program of calls asks only for what is allowed when the controller carries it out, if its calls
are allowed. -/
theorem Controlling.calling_asksOnly {α : Type} {program : Calling α} {allowed : Control → Prop}
    (asks : program.AsksOnly fun call => allowed (.call call)) :
    (calling program).AsksOnly allowed := by
  induction program with
  | done value => trivial
  | ask call next ih => exact ⟨asks.1, fun answer => ih answer (asks.2 answer)⟩

namespace Policy

/-- The look has started a run and waited for its end. -/
def synced (plan : SyncPlan) (outcome : Except SyncError RunOutcome) : Exchange Controls :=
  ⟨.sync plan, outcome⟩

/-- The removal that a look at a living document makes before it writes its target. -/
def removal (policy : Policy) (document : Document) (now : Timestamp) (lineage : List String) :
    SyncPlan :=
  .removing document (document.reconcile now lineage).deleted policy.sizing

/-- A look at a living document has made calls by which it knows what its parent version
holds, and what time it is. -/
def Prepares (document : Document) (now : Timestamp) (lineage : List String)
    (calls : List (Exchange Calls)) : Prop :=
  ∃ listed, calls = listed ++ [⟨.clock, now⟩] ∧
    document.listLineage.Leads listed (.done (.ok lineage))

/-- After its preparation, a look had nothing to remove, or its removal has come to an end. -/
inductive Removes (policy : Policy) (document : Document) (now : Timestamp)
    (lineage : List String) (calls : List (Exchange Calls)) : List (Exchange Controls) → Prop
  | nothing (none : (document.reconcile now lineage).deleted = []) :
      Removes policy document now lineage calls (calls.map Controlling.exchanged)
  | all (outcome : RunOutcome) :
      Removes policy document now lineage calls (calls.map Controlling.exchanged ++
        [synced (policy.removal document now lineage) (.ok outcome)])

/-- Where a look stands: the exchanges it has made, and what is left of it. -/
inductive Looking (policy : Policy) (document : Document) :
    List (Exchange Controls) → Controlling (Except ReconcileError Next) → Prop
  /-- It is about to make a call that spares the documents. -/
  | atCall {trail : List (Exchange Controls)} {call : Call}
      {next : call.Answer → Controlling (Except ReconcileError Next)}
      (spares : call.SparesDocuments) :
      Looking policy document trail (.ask (.call call) next)
  /-- It is about to stop the run of its document. -/
  | atStop {next : Option RunId → Controlling (Except ReconcileError Next)}
      (deleting : document.isDeleting = true) :
      Looking policy document [] (.ask (.stop document.key.toString) next)
  /-- It is about to wait for the end of the run it has stopped. -/
  | atAwait {run : RunId} {next : Unit → Controlling (Except ReconcileError Next)}
      (deleting : document.isDeleting = true) :
      Looking policy document [⟨.stop document.key.toString, some run⟩] (.ask (.await run) next)
  /-- It has purged what the status does not know, and is about to remove the rest. -/
  | atCleanup {before : List (Exchange Controls)} {calls : List (Exchange Calls)}
      {next : Except SyncError RunOutcome → Controlling (Except ReconcileError Next)}
      (deleting : document.isDeleting = true)
      (purged : (purgeUntracked document document.reconcileDeleted.deleted).Leads calls
        (.done (.ok ()))) :
      Looking policy document (before ++ calls.map Controlling.exchanged)
        (.ask (.sync (.removing document document.reconcileDeleted.deleted policy.sizing)) next)
  /-- It is about to put on labels and finalizer. -/
  | atMark {marked : Document}
      {next : Except StoreError Document → Controlling (Except ReconcileError Next)}
      (living : document.isDeleting = false) (unmarked : document.marked? = some marked) :
      Looking policy document [] (.ask (.call (.document (.update marked))) next)
  /-- It is about to remove what is no longer declared. -/
  | atRemoval {now : Timestamp} {lineage : List String} {calls : List (Exchange Calls)}
      {next : Except SyncError RunOutcome → Controlling (Except ReconcileError Next)}
      (living : document.isDeleting = false) (prepared : Prepares document now lineage calls) :
      Looking policy document (calls.map Controlling.exchanged)
        (.ask (.sync (policy.removal document now lineage)) next)
  /-- It is about to write its target. -/
  | atTarget {trail : List (Exchange Controls)} {now : Timestamp} {lineage : List String}
      {calls : List (Exchange Calls)} {token : String}
      {next : Except StoreError Unit → Controlling (Except ReconcileError Next)}
      (living : document.isDeleting = false) (prepared : Prepares document now lineage calls)
      (removed : policy.Removes document now lineage calls trail)
      (snapshot : document.versionToken = some token) :
      Looking policy document trail
        (.ask (.call (.document
          (.patchStatus document.key token (document.reconcile now lineage).target))) next)
  /-- It is about to launch a copy run, and to end with that. -/
  | atLaunch {now : Timestamp} {lineage : List String} {calls : List (Exchange Calls)}
      {next : RunId → Controlling (Except ReconcileError Next)}
      (living : document.isDeleting = false) (prepared : Prepares document now lineage calls)
      (last : ∀ id, ∃ result, next id = .done result) :
      Looking policy document (calls.map Controlling.exchanged)
        (.ask (.launch document.key.toString (.copying
          { document with status := some (document.reconcile now lineage).target }
          policy.sizing)) next)
  /-- It has come to its end. -/
  | ended {trail : List (Exchange Controls)} {result : Except ReconcileError Next} :
      Looking policy document trail (.done result)

/-- The removal of listed objects spares the documents, also if it stops at a failure. -/
theorem removeAll_spares (bucket : String) (keys : List String) :
    (removeAll bucket keys).AsksOnly Call.SparesDocuments := by
  induction keys with
  | nil => trivial
  | cons key keys ih =>
    refine ⟨by simp [Call.SparesDocuments], fun answer => ?_⟩
    cases answer with
    | error error => trivial
    | ok => exact ih

/-- The purge spares the documents, however far it comes: it checks its bucket, lists it, and
removes objects. -/
theorem purgeUntracked_spares (document : Document) (tracked : FileTree) :
    (purgeUntracked document tracked).AsksOnly Call.SparesDocuments := by
  refine ⟨by simp [Call.SparesDocuments], fun answer => ?_⟩
  rcases answer with error | _ | _
  · trivial
  · trivial
  · refine ⟨by simp [Call.SparesDocuments], fun answer => ?_⟩
    cases answer with
    | error error => trivial
    | ok objects => exact removeAll_spares _ _

/-- The listing of the parent version is quiet: it changes neither objects nor documents. -/
theorem listLineage_quiet (document : Document) :
    document.listLineage.AsksOnly Call.IsQuiet := by
  unfold Document.listLineage
  split
  · trivial
  · exact ⟨by simp [Call.IsQuiet, Call.SparesDocuments, Call.SparesObjects], fun _ => trivial⟩

/-- A program of calls that spare the documents, and what follows it. While the look makes these
calls it stands at a call; afterwards it stands where what follows leads. -/
theorem looking_calling {policy : Policy} {document : Document} {α : Type}
    {program : Calling α} {next : α → Controlling (Except ReconcileError Next)}
    {before trail : List (Exchange Controls)} {rest : Controlling (Except ReconcileError Next)}
    (spares : program.AsksOnly Call.SparesDocuments)
    (leads : ((Controlling.calling program).bind next).Leads trail rest)
    (after : ∀ calls value second, program.Leads calls (.done value) →
      (next value).Leads second rest →
        Looking policy document (before ++ calls.map Controlling.exchanged ++ second) rest) :
    Looking policy document (before ++ trail) rest := by
  rcases Program.bind_leads_iff.mp leads with
    ⟨control, left, within, rfl⟩ | ⟨first, second, value, rfl, ended, later⟩
  · obtain ⟨call, calls, inner, rfl, rfl, reached⟩ := Controlling.calling_asks within
    exact .atCall (spares.leads reached).1
  · obtain ⟨calls, rfl, reached⟩ := Controlling.calling_ends ended
    rw [← List.append_assoc]
    exact after calls value second reached later

/-- What a look at a deleted document does once no run of the document is left: it purges
what the status does not know, and removes the rest. -/
def cleanup (policy : Policy) (document : Document) :
    Controlling (Except ReconcileError Next) := do
  let deleted := document.reconcileDeleted.deleted
  match ← Controlling.calling (purgeUntracked document deleted) with
  | .error error => return .error (.storage error)
  | .ok () =>
    match ← Controlling.sync (.removing document deleted policy.sizing) with
    | .error error => return .error (.sync error)
    | .ok _ => return .ok .awaitChange

/-- A look at a deleted document that has the finalizer stops the run of the document before
it cleans up. -/
theorem finalize_eq (policy : Policy) (key : String) (document : Document) :
    policy.finalize key document =
      if document.finalizers.contains Document.finalizer then
        (Controlling.stop key).bind fun
          | some run => (Controlling.await run).bind fun _ => policy.cleanup document
          | none => policy.cleanup document
      else .done (.ok .awaitChange) := by
  unfold finalize
  cases document.finalizers.contains Document.finalizer with
  | false => rfl
  | true =>
    refine congrArg (Program.bind (Controlling.stop key)) (funext fun answer => ?_)
    cases answer <;> rfl

/-- The positions of the cleanup: the calls of the purge, the removal run, and the end. -/
theorem looking_cleanup {policy : Policy} {document : Document}
    {before trail : List (Exchange Controls)} {rest : Controlling (Except ReconcileError Next)}
    (deleting : document.isDeleting = true)
    (leads : (policy.cleanup document).Leads trail rest) :
    Looking policy document (before ++ trail) rest := by
  refine looking_calling (purgeUntracked_spares _ _) leads fun calls value second purged later => ?_
  cases value with
  | error error =>
    obtain ⟨-, rfl⟩ := Program.done_leads_iff.mp later
    exact .ended
  | ok =>
    rcases Program.ask_leads_iff.mp later with ⟨rfl, rfl⟩ | ⟨answer, third, rfl, final⟩
    · rw [List.append_nil]
      exact .atCleanup deleting purged
    · cases answer <;> obtain ⟨-, rfl⟩ := Program.done_leads_iff.mp final <;> exact .ended

/-- The positions of a look at a deleted document. Before the cleanup it stops the run of its key,
and waits for it if there is one. -/
theorem looking_finalize {policy : Policy} {document : Document}
    {trail : List (Exchange Controls)} {rest : Controlling (Except ReconcileError Next)}
    (deleting : document.isDeleting = true)
    (leads : (policy.finalize document.key.toString document).Leads trail rest) :
    Looking policy document trail rest := by
  rw [finalize_eq] at leads
  split at leads
  · rcases Program.ask_leads_iff.mp leads with ⟨rfl, rfl⟩ | ⟨answer, later, rfl, after⟩
    · exact .atStop deleting
    cases answer with
    | none =>
      exact @looking_cleanup policy document [⟨.stop document.key.toString, none⟩] _ _ deleting
        after
    | some run =>
      rcases Program.ask_leads_iff.mp after with ⟨rfl, rfl⟩ | ⟨answer, last, rfl, final⟩
      · exact .atAwait deleting
      · exact @looking_cleanup policy document
          [⟨.stop document.key.toString, some run⟩, ⟨.await run, answer⟩] _ _ deleting final
  · obtain ⟨-, rfl⟩ := Program.done_leads_iff.mp leads
    exact .ended

/-- A single call as the last thing that a look does. -/
theorem looking_mark {policy : Policy} {document marked : Document}
    {trail : List (Exchange Controls)} {rest : Controlling (Except ReconcileError Next)}
    (living : document.isDeleting = false) (unmarked : document.marked? = some marked)
    (leads : (Controlling.calling (mark marked)).Leads trail rest) :
    Looking policy document trail rest := by
  obtain ⟨calls, left, rfl, within, rfl⟩ := Controlling.calling_leads_iff.mp leads
  rcases Program.ask_leads_iff.mp within with ⟨rfl, rfl⟩ | ⟨answer, later, rfl, after⟩
  · exact .atMark living unmarked
  · rcases answer with (_ | _ | _ | _) | _ <;>
      obtain ⟨-, rfl⟩ := Program.done_leads_iff.mp after <;> exact .ended

/-- The target is written once nothing is left to be removed, and with that the look ends. -/
theorem looking_writeTarget {policy : Policy} {document : Document} {now : Timestamp}
    {lineage : List String} {calls : List (Exchange Calls)}
    {before trail : List (Exchange Controls)}
    {rest : Controlling (Except ReconcileError Next)} (living : document.isDeleting = false)
    (prepared : Prepares document now lineage calls)
    (removed : policy.Removes document now lineage calls before)
    (leads : (Controlling.calling
      (writeTarget document (document.reconcile now lineage).target)).Leads trail rest) :
    Looking policy document (before ++ trail) rest := by
  obtain ⟨written, left, rfl, within, rfl⟩ := Controlling.calling_leads_iff.mp leads
  unfold writeTarget at within
  split at within
  · obtain ⟨-, rfl⟩ := Program.done_leads_iff.mp within
    exact .ended
  · rename_i token snapshot
    rcases Program.ask_leads_iff.mp within with ⟨rfl, rfl⟩ | ⟨answer, later, rfl, after⟩
    · rw [List.map_nil, List.append_nil]
      exact .atTarget living prepared removed snapshot
    · rcases answer with (_ | _ | _ | _) | _ <;>
        obtain ⟨-, rfl⟩ := Program.done_leads_iff.mp after <;> exact .ended

/-- What is no longer declared is removed first, and then the target is written. If the removal
fails, the target is not written. -/
theorem looking_applyOutcome {policy : Policy} {document : Document} {now : Timestamp}
    {lineage : List String} {calls : List (Exchange Calls)} {trail : List (Exchange Controls)}
    {rest : Controlling (Except ReconcileError Next)} (living : document.isDeleting = false)
    (prepared : Prepares document now lineage calls)
    (leads : (policy.applyOutcome document (document.reconcile now lineage)).Leads trail rest) :
    Looking policy document (calls.map Controlling.exchanged ++ trail) rest := by
  unfold applyOutcome at leads
  split at leads
  · rename_i nothing
    exact looking_writeTarget living prepared (.nothing (List.isEmpty_iff.mp nothing)) leads
  rcases Program.ask_leads_iff.mp leads with ⟨rfl, rfl⟩ | ⟨answer, later, rfl, after⟩
  · rw [List.append_nil]
    exact .atRemoval living prepared
  cases answer with
  | error error =>
    obtain ⟨-, rfl⟩ := Program.done_leads_iff.mp after
    exact .ended
  | ok outcome =>
    have removed : policy.Removes document now lineage calls
        (calls.map Controlling.exchanged ++
          [synced (policy.removal document now lineage) (.ok outcome)]) := .all outcome
    have looking := looking_writeTarget living prepared removed after
    rw [List.append_assoc] at looking
    exact looking

/-- The positions of a look at a living document that is marked: the listing of the parent version,
the time, and what follows from the comparison, or a launch. -/
theorem looking_advance {policy : Policy} {document : Document}
    {trail : List (Exchange Controls)} {rest : Controlling (Except ReconcileError Next)}
    (living : document.isDeleting = false)
    (leads : (policy.advance document.key.toString document).Leads trail rest) :
    Looking policy document trail rest := by
  rw [← List.nil_append trail]
  have spares : document.listLineage.AsksOnly Call.SparesDocuments :=
    (listLineage_quiet document).imp fun _ quiet => quiet.1
  refine looking_calling spares leads fun listed value second reached later => ?_
  cases value with
  | error error =>
    obtain ⟨-, rfl⟩ := Program.done_leads_iff.mp later
    exact .ended
  | ok lineage =>
    rcases Program.ask_leads_iff.mp later with ⟨rfl, rfl⟩ | ⟨now, third, rfl, after⟩
    · exact .atCall (by simp [Call.SparesDocuments])
    simp only [Program.run, Program.pure_eq_done, Program.done_bind] at after
    let clocked : Exchange Calls := ⟨.clock, now⟩
    have prepared : Prepares document now lineage (listed ++ [clocked]) :=
      ⟨listed, rfl, reached⟩
    have trails : [] ++ listed.map Controlling.exchanged ++ ⟨.call .clock, now⟩ :: third =
        (listed ++ [clocked]).map Controlling.exchanged ++ third := by
      simp [clocked, Controlling.exchanged]
    rw [trails]
    split at after
    · exact looking_applyOutcome living prepared after
    · rcases Program.ask_leads_iff.mp after with ⟨rfl, rfl⟩ | ⟨id, fourth, rfl, final⟩
      · rw [List.append_nil]
        exact .atLaunch living prepared fun _ => ⟨_, rfl⟩
      · obtain ⟨-, rfl⟩ := Program.done_leads_iff.mp final
        exact .ended

/-- Every position that a look can reach is listed. The proof follows the text of the look, and each
of its parts has a lemma of its own. -/
theorem looking_of_leads {policy : Policy} {document : Document}
    {trail : List (Exchange Controls)} {rest : Controlling (Except ReconcileError Next)}
    (leads : (policy.reconcile document).Leads trail rest) :
    Looking policy document trail rest := by
  unfold reconcile at leads
  split at leads
  · obtain ⟨-, rfl⟩ := Program.done_leads_iff.mp leads
    exact .ended
  dsimp only at leads
  cases deleting : document.isDeleting with
  | true =>
    rw [if_pos deleting] at leads
    exact looking_finalize deleting leads
  | false =>
    rw [if_neg (by simp [deleting])] at leads
    split at leads
    · rename_i marked unmarked
      exact looking_mark deleting unmarked leads
    · exact looking_advance deleting leads

section Objects

variable {policy : Policy} {document : Document}

/-- A look that marks a document touches no objects: its only call is the update of the document. -/
theorem mark_sparesObjects (marked : Document) : (mark marked).AsksOnly Call.SparesObjects := by
  refine ⟨trivial, fun answer => ?_⟩
  rcases answer with (_ | _ | _ | _) | _ <;> trivial

/-- A look that writes its target touches no objects: its only call, if it makes one, is the patch
of the status. -/
theorem writeTarget_sparesObjects (target : Status) :
    (writeTarget document target).AsksOnly Call.SparesObjects := by
  unfold writeTarget
  split
  · trivial
  · refine ⟨trivial, fun answer => ?_⟩
    rcases answer with (_ | _ | _ | _) | _ <;> trivial

/-- What a look at a living document asks: calls that touch no objects, a removal run, and a copy run
for its target once nothing is left to remove. -/
def AsksLiving (policy : Policy) (document : Document) : Control → Prop
  | .call made => made.SparesObjects
  | .sync plan => ∃ now lineage, plan = policy.removal document now lineage
  | .launch _ plan => ∃ now lineage, (document.reconcile now lineage).deleted = [] ∧
      plan = .copying { document with status := some (document.reconcile now lineage).target }
        policy.sizing
  | _ => False

/-- A look that follows a comparison starts its removal run only. Apart from that it makes calls
that touch no objects, and it launches nothing. -/
theorem applyOutcome_asksLiving (now : Timestamp) (lineage : List String) :
    (policy.applyOutcome document (document.reconcile now lineage)).AsksOnly
      (policy.AsksLiving document) := by
  unfold applyOutcome
  split
  · exact Controlling.calling_asksOnly (writeTarget_sparesObjects _)
  · refine ⟨⟨now, lineage, rfl⟩, fun answer => ?_⟩
    cases answer with
    | error error => trivial
    | ok => exact Controlling.calling_asksOnly (writeTarget_sparesObjects _)

/-- A look at a living document asks nothing else: quiet calls, writes of its own document, its
removal run, and a launch. -/
theorem reconcile_asksLiving (living : document.isDeleting = false) :
    (policy.reconcile document).AsksOnly (policy.AsksLiving document) := by
  unfold reconcile
  split
  · trivial
  dsimp only
  rw [if_neg (by simp [living])]
  split
  · exact Controlling.calling_asksOnly (mark_sparesObjects _)
  unfold advance
  have lists : document.listLineage.AsksOnly Call.SparesObjects :=
    (listLineage_quiet document).imp fun _ quiet => quiet.2
  refine (Controlling.calling_asksOnly lists).bind fun listed => ?_
  cases listed with
  | error error => trivial
  | ok lineage =>
    refine ⟨trivial, fun now => ?_⟩
    simp only [Program.run, Program.pure_eq_done, Program.done_bind]
    split
    · exact applyOutcome_asksLiving now lineage
    · rename_i nothing
      rw [Bool.not_eq_true, Bool.or_eq_false_iff] at nothing
      have removed : (document.reconcile now lineage).deleted = [] := by simpa using nothing.2
      exact ⟨⟨now, lineage, removed, rfl⟩, fun _ => trivial⟩

/-- A look at a living document touches objects only by the runs that it starts. -/
theorem reconcile_sparesObjects (living : document.isDeleting = false) :
    (policy.reconcile document).AsksOnly Control.SparesObjects := by
  refine (reconcile_asksLiving living).imp fun control asks => ?_
  cases control with
  | call made => exact asks
  | sync | launch | stop | await => trivial

end Objects

end Policy

end DatasetSync
