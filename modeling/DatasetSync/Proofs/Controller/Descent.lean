import Mathlib.Data.Finset.Card
import DatasetSync.Proofs.Controller.Turn
import DatasetSync.Proofs.FileTree.Aligned
import DatasetSync.Proofs.FileTree.Report

/-!
# Why turns come to an end

After any turn over a labelled document its tree is aligned with what the parent version held.
From then on it has one of two relations to what the parent version holds. If it lists more, then
every turn that brings it in line shortens the list. If it lists no more, then nothing is removed
any more: a turn either lists more of what is inherited, or commits. Only finitely many paths can
ever be inherited, and of the commits that leave the list alone each one but the first settles a
file.

All this holds while no declared path doubles one of the parent version. A file that is listed
twice is new in every comparison, so that the status is written again and again.
-/

namespace DatasetSync.Document

open FileTree SyncPlan

variable {document document' : Document} {objects objects' : ObjectStore}
  {former lineage : List String} {path : String} {bound : Finset String}

/-- The parent version holds a path that is also declared, under the name of the inherited
source. -/
def Clashes (document : Document) (objects : ObjectStore) : Prop :=
  ∃ path, document.Inherits objects path ∧
    document.Declares (document.lineageReference.qualified document.ns) path

/-- If a listing doubles a path, the parent version holds it, and conversely a declared path that
the parent version holds is doubled by a listing. -/
theorem clashes_iff (listed : document.lineageIn objects = .ok lineage) :
    document.Doubles lineage ↔ document.Clashes objects := by
  constructor
  · rintro ⟨-, path, held, declared⟩
    exact ⟨path, (mem_lineageIn_iff listed).mp held, declared⟩
  · rintro ⟨path, held, declared⟩
    refine ⟨?_, path, (mem_lineageIn_iff listed).mpr held, declared⟩
    obtain ⟨-, parent, inherits, -⟩ := held
    simp [inherits]

/-- A document of the same name with the same declaration. -/
structure Kin (document document' : Document) : Prop where
  key : document'.key = document.key
  ns : document'.metadata.ns = document.metadata.ns
  spec : document'.spec = document.spec

/-- Every version is kin to itself. -/
theorem Kin.refl (document : Document) : document.Kin document := ⟨rfl, rfl, rfl⟩

/-- Being kin is transitive. -/
theorem Kin.trans {document'' : Document} (first : document.Kin document')
    (second : document'.Kin document'') : document.Kin document'' :=
  ⟨second.key.trans first.key, second.ns.trans first.ns, second.spec.trans first.spec⟩

/-- What is inherited depends on the declaration and on the objects only. The parent and the
namespace are both declared. -/
theorem Kin.inherits_iff (kin : document.Kin document') :
    document'.Inherits objects path ↔ document.Inherits objects path := by
  unfold Inherits datasetNs datasetName
  rw [kin.ns, kin.spec]

/-- Whether a version is nested in its parent depends on the declaration only. -/
theorem Kin.nested_iff (kin : document.Kin document') : document'.Nested ↔ document.Nested := by
  unfold Nested
  rw [kin.spec]

/-- What clashes depends on the declaration and on the objects only, and not on what a status has
recorded so far. -/
theorem Kin.clashes_iff (kin : document.Kin document') :
    document'.Clashes objects ↔ document.Clashes objects := by
  unfold Clashes
  simp only [kin.inherits_iff]
  unfold Declares lineageReference Document.ns
  rw [kin.ns, kin.spec]

/-- A turn keeps name and declaration: it puts labels on, writes a target, or commits a status. -/
theorem Turn.kin (turn : document.Turn objects document' objects') : document.Kin document' := by
  cases turn with
  | marked unmarked =>
    obtain ⟨-, labels, finalizers, rfl⟩ := marked?_eq_some unmarked
    exact ⟨rfl, rfl, rfl⟩
  | aligned => exact ⟨rfl, rfl, rfl⟩
  | committed => exact ⟨rfl, rfl, rfl⟩

/-- After a turn a document is labelled and guarded. It was so before, unless the turn has put
labels and finalizer on. -/
theorem Turn.isMarked (turn : document.Turn objects document' objects') :
    document'.isMarked = true := by
  cases turn with
  | marked unmarked => exact (marked?_eq_some unmarked).1
  | aligned marked => exact marked
  | committed marked => exact marked

/-- The tree lists what was inherited formerly, and nothing of it has gone. -/
structure Follows (document : Document) (objects : ObjectStore) (former : List String) :
    Prop where
  marked : document.isMarked = true
  aligned : document.Aligned former
  held : ∀ path ∈ former, document.Inherits objects path

/-- The tree lists what was inherited formerly, and nothing has come since. -/
structure Exceeds (document : Document) (objects : ObjectStore) (former : List String) :
    Prop where
  marked : document.isMarked = true
  aligned : document.Aligned former
  known : ∀ path, document.Inherits objects path → path ∈ former

/-- After a comparison was written the tree is aligned with the listing that it was made with. -/
theorem aligned_target {now : Timestamp} {token : String} :
    (DocumentStore.withToken { document with
      status := some (document.reconcile now lineage).target } token).Aligned lineage :=
  outline_target

/-- After a commit the tree is aligned with the listing that its comparison was made with, since
completions keep sources and paths. -/
theorem aligned_commit {now now' : Timestamp} {completions : List Completion} {token : String} :
    (DocumentStore.withToken { document with
      status := some (commitStatus document.status (recordAll document.datasetName completions
        (document.reconcile now lineage).target.files) now') } token).Aligned lineage :=
  (outline_recordAll completions _).trans outline_target

/-- The stored status already reports on the tree that is stored. -/
def Reported (document : Document) : Prop :=
  ∀ now, document.status = some (commitStatus document.status document.files now)

/-- What a run has committed is reported on: readiness is among the reports of the status. -/
theorem reported_commit {stored : Option Status} {tree : FileTree} {now : Timestamp}
    {token : String} : (DocumentStore.withToken { document with
      status := some (commitStatus stored tree now) } token).Reported :=
  fun now' => congrArg some (commitStatus_again stored tree now now').symm

/-- What a turn of a labelled document comes to. Its tree is aligned with what was listed. -/
inductive Lined (document : Document) (objects : ObjectStore) (document' : Document)
    (objects' : ObjectStore) : Prop
  /-- Something was due. Nothing more is inherited afterwards, and no less if nothing was
  removed. -/
  | written {now : Timestamp} {lineage : List String}
      (listed : document.lineageIn objects = .ok lineage) (aligned : document'.Aligned lineage)
      (known : ∀ path, document'.Inherits objects' path → path ∈ lineage)
      (due : (document.reconcile now lineage).deleted = [] →
        (document.reconcile now lineage).statusChanged = true ∧
          ∀ path ∈ lineage, document'.Inherits objects' path)
  /-- Nothing was due. Nothing less is inherited afterwards, and the status reports on the tree;
  if the comparison led to the stored tree, and the status reported on that, a file was
  settled. -/
  | committed {now : Timestamp} {lineage : List String}
      (listed : document.lineageIn objects = .ok lineage) (aligned : document'.Aligned lineage)
      (unchanged : (document.reconcile now lineage).statusChanged = false)
      (held : ∀ path ∈ lineage, document'.Inherits objects' path) (reported : document'.Reported)
      (fewer : (document.reconcile now lineage).target.files = document.files →
        document.Reported → document'.files.pending < document.files.pending)

/-- Every turn of a labelled document lines its tree up in one of these ways: by what is written
where something was due, or by a commit where nothing was. A commit is a turn only if it differs
from what was stored, so that it has settled a file that was pending. -/
theorem Turn.lined (turn : document.Turn objects document' objects')
    (marked : document.isMarked = true) : document.Lined objects document' objects' := by
  have kin := turn.kin
  cases turn with
  | marked unmarked =>
    rw [marked?_eq_none_iff.mpr marked] at unmarked
    cases unmarked
  | @aligned now lineage token _ _ listed due fewer kept =>
    refine .written listed aligned_target (fun path held => ?_) fun nothing =>
      ⟨due nothing, fun path held => kin.inherits_iff.mpr ?_⟩
    · exact (mem_lineageIn_iff listed).mpr ((kin.inherits_iff.mp held).mono fewer)
    · exact ((mem_lineageIn_iff listed).mp held).mono (kept nothing)
  | @committed now now' lineage completions tree token _ _ listed nothing unchanged recorded differs
      kept copies =>
    subst recorded
    refine .committed listed aligned_commit unchanged (fun path held => kin.inherits_iff.mpr ?_)
      reported_commit fun same reported => ?_
    · exact ((mem_lineageIn_iff listed).mp held).mono kept
    · rw [same] at differs ⊢
      rcases @pending_recordAll document.datasetName completions document.files with
        idle | fewer
      · rw [idle] at differs
        exact absurd (reported now') differs
      · exact fewer

/-- Where no file is listed twice, a comparison finds something new only if more is inherited than
the tree lists. -/
theorem Aligned.not_subset_of_new {now : Timestamp} (aligned : document.Aligned former)
    (listed : document.lineageIn objects = .ok lineage) (single : ¬ document.Clashes objects)
    (new : (document.reconcile now lineage).statusChanged = true) : ¬ lineage ⊆ former := by
  intro known
  rw [aligned.unchanged known fun doubles => single ((clashes_iff listed).mp doubles)] at new
  cases new

/-- A turn of a labelled document leaves it with a tree that lists no less than is inherited, or
no more. -/
theorem Turn.related (turn : document.Turn objects document' objects')
    (marked : document.isMarked = true) :
    ∃ lineage, document'.Exceeds objects' lineage ∨ document'.Follows objects' lineage := by
  cases turn.lined marked with
  | written _ aligned known => exact ⟨_, .inl ⟨turn.isMarked, aligned, known⟩⟩
  | committed _ aligned _ held => exact ⟨_, .inr ⟨turn.isMarked, aligned, held⟩⟩

/-- A turn of a document whose tree lists too much shortens the list, or leaves it with a tree that
lists no more than is inherited. If the list was not too long, nothing was due. -/
theorem Exceeds.turn (exceeds : document.Exceeds objects former)
    (single : ¬ document.Clashes objects) (turn : document.Turn objects document' objects') :
    (∃ lineage, document'.Exceeds objects' lineage ∧ lineage ⊆ former ∧ ¬ former ⊆ lineage) ∨
      ∃ lineage, document'.Follows objects' lineage := by
  cases turn.lined exceeds.marked with
  | @written now lineage listed aligned known due =>
    have within : lineage ⊆ former := fun path held =>
      exceeds.known path ((mem_lineageIn_iff listed).mp held)
    refine .inl ⟨lineage, ⟨turn.isMarked, aligned, known⟩, within, fun all => ?_⟩
    have new := (due (exceeds.aligned.deleted_eq_nil all)).1
    exact exceeds.aligned.not_subset_of_new listed single new within
  | committed _ aligned _ held => exact .inr ⟨_, turn.isMarked, aligned, held⟩

/-- A turn of a document whose tree lists no more than is inherited lists more of it, or commits
over the same list. -/
theorem Follows.turn (follows : document.Follows objects former)
    (single : ¬ document.Clashes objects) (turn : document.Turn objects document' objects') :
    (∃ lineage, document.lineageIn objects = .ok lineage ∧ document'.Follows objects' lineage ∧
        former ⊆ lineage ∧ ¬ lineage ⊆ former) ∨
      (document'.Follows objects' former ∧ document'.Reported ∧
        (document.Reported → document'.files.pending < document.files.pending)) := by
  cases turn.lined follows.marked with
  | @written now lineage listed aligned _ due =>
    have within : former ⊆ lineage := fun path inherited =>
      (mem_lineageIn_iff listed).mpr (follows.held path inherited)
    obtain ⟨new, held⟩ := due (follows.aligned.deleted_eq_nil within)
    exact .inl ⟨lineage, listed, ⟨turn.isMarked, aligned, held⟩, within,
      follows.aligned.not_subset_of_new listed single new⟩
  | @committed now lineage listed aligned unchanged held reported fewer =>
    have same : ∀ path, path ∈ former ↔ path ∈ lineage := by
      refine fun path => ⟨fun inherited => (mem_lineageIn_iff listed).mpr
        (follows.held path inherited), fun inherited => ?_⟩
      obtain ⟨-, parent, inherits, -⟩ := (mem_lineageIn_iff listed).mp inherited
      exact follows.aligned.known_of_unchanged (by simp [inherits]) unchanged path inherited
    have realigned : ∀ document : Document, document.Aligned lineage ↔ document.Aligned former := by
      intro document
      unfold Aligned
      rw [declaredTree_congr same]
    refine .inr ⟨⟨turn.isMarked, (realigned document').mp aligned,
      fun path inherited => held path ((same path).mp inherited)⟩, reported, fewer ?_⟩
    exact ((realigned document).mpr follows.aligned).target_eq unchanged

/-- A set of paths has all that are declared or inherited, and all that copies of its paths can
add to what is inherited. -/
structure Bounded (document : Document) (objects : ObjectStore) (bound : Finset String) :
    Prop where
  declared : ∀ source path, document.Declares source path → path ∈ bound
  lands : ∀ path ∈ bound, ∀ landed, document.Lands path landed → landed ∈ bound
  inherited : ∀ path, document.Inherits objects path → path ∈ bound

/-- Unless a version is nested in its parent, there are bounds: the declared paths and those that
the parent version holds are finitely many, and so are all that copies of them can add. -/
theorem exists_bounded (separate : ¬ document.Nested) (objects : ObjectStore) :
    ∃ bound, document.Bounded objects bound := by
  obtain ⟨paths, inherited⟩ := document.exists_inherited objects
  obtain ⟨bound, seeds, lands⟩ :=
    exists_closed separate (paths ++ document.spec.fileGroups.flatMap FileGroup.paths)
  refine ⟨bound, ?_, lands, fun path held =>
    seeds path (List.mem_append_left _ (inherited path held))⟩
  rintro source path ⟨group, member, -, among⟩
  exact seeds path (List.mem_append_right _ (List.mem_flatMap.mpr ⟨group, member, among⟩))

/-- A turn stays within bounds. The file that was copied is declared or inherited, so that what its
copy adds to what is inherited is within them, too. -/
theorem Turn.bounded (turn : document.Turn objects document' objects')
    (marked : document.isMarked = true) (bounded : document.Bounded objects bound) :
    document'.Bounded objects' bound := by
  have kin := turn.kin
  refine ⟨fun source path => ?_, fun path member landed lands => ?_, fun path held => ?_⟩
  · unfold Declares Document.ns
    rw [kin.ns, kin.spec]
    exact bounded.declared source path
  · unfold Lands datasetName at lands
    rw [kin.spec] at lands
    exact bounded.lands path member landed lands
  have held' := kin.inherits_iff.mp held
  cases turn with
  | marked unmarked =>
    rw [marked?_eq_none_iff.mpr marked] at unmarked
    cases unmarked
  | aligned marked listed due fewer kept =>
    exact bounded.inherited path (held'.mono fewer)
  | @committed now now' lineage completions tree token _ _ listed nothing unchanged recorded differs
      kept copies =>
    obtain ⟨named, parent, inherits, present⟩ := held'
    rcases copies _ present with former | ⟨group, member, file, inGroup, place⟩
    · exact bounded.inherited path ⟨named, parent, inherits, former⟩
    · refine bounded.lands file.path ?_ path
        ⟨parent, inherits, (ObjectAddress.mk.inj place).2.symm⟩
      have lists : (DocumentStore.withToken { document with
          status := some (document.reconcile now lineage).target } "").files.Lists document.ns
            (group.source.qualified document.ns) file.path :=
        ⟨file, ⟨group, member, rfl, inGroup⟩, rfl⟩
      rcases lists_declaredTree_iff.mp ((Aligned.lists_iff aligned_target).mp lists) with
        own | ⟨-, -, inherited⟩
      · exact bounded.declared _ _ own
      · exact bounded.inherited _ ((mem_lineageIn_iff listed).mp inherited)

/-- A document and the objects came of others by one turn, in which nothing was listed twice. -/
def Approaches (later earlier : Document × ObjectStore) : Prop :=
  earlier.1.Turn earlier.2 later.1 later.2 ∧ ¬ earlier.1.Clashes earlier.2

/-- The turns from a document whose tree lists no more than is inherited come to an end if they
do after every turn that lists more, and after every commit that reports on the tree. -/
theorem Follows.acc (follows : document.Follows objects former)
    (bounded : document.Bounded objects bound)
    (longer : ∀ document' objects' lineage, Follows document' objects' lineage →
      Bounded document' objects' bound →
      (bound \ lineage.toFinset).card < (bound \ former.toFinset).card →
        Acc Approaches (document', objects'))
    (commits : ∀ document' objects', Follows document' objects' former →
      Bounded document' objects' bound → document'.Reported →
      (document.Reported → document'.files.pending < document.files.pending) →
        Acc Approaches (document', objects')) : Acc Approaches (document, objects) := by
  refine .intro _ fun ⟨document', objects'⟩ ⟨turn, single⟩ => ?_
  have bounded' := turn.bounded follows.marked bounded
  rcases follows.turn single turn with
    ⟨lineage, listed, follows', within, more⟩ | ⟨follows', reported, fewer⟩
  · refine longer document' objects' lineage follows' bounded' (Finset.card_lt_card ?_)
    obtain ⟨path, held, new⟩ : ∃ path ∈ lineage, path ∉ former := by
      simpa [List.subset_def] using more
    refine Finset.ssubset_iff_of_subset (Finset.sdiff_subset_sdiff le_rfl fun path => ?_) |>.mpr
      ⟨path, ?_, ?_⟩
    · simpa using @within path
    · simpa using ⟨bounded.inherited path ((mem_lineageIn_iff listed).mp held), new⟩
    · simp [held]
  · exact commits document' objects' follows' bounded' reported fewer

/-- The turns from a document whose tree lists no more than is inherited come to an end. The paths
within the bound that the tree does not list become fewer by every longer list, and of the commits
over one list, each after the first settles a file. -/
theorem Follows.acc_of_bounded (follows : document.Follows objects former)
    (bounded : document.Bounded objects bound) : Acc Approaches (document, objects) := by
  induction size : (bound \ former.toFinset).card using Nat.strong_induction_on
    generalizing document objects former with
  | _ size longer =>
    subst size
    have longer' := fun document' objects' lineage follows' bounded' less =>
      @longer _ less document' objects' lineage follows' bounded' rfl
    have reported : ∀ pending document objects, Follows document objects former →
        Bounded document objects bound → document.Reported → document.files.pending = pending →
        Acc Approaches (document, objects) := by
      intro pending
      induction pending using Nat.strong_induction_on with
      | _ pending fewer =>
        rintro document objects follows bounded reported rfl
        exact follows.acc bounded longer' fun document' objects' follows' bounded' reported' less =>
          fewer _ (less reported) document' objects' follows' bounded' reported' rfl
    exact follows.acc bounded longer' fun document' objects' follows' bounded' reported' _ =>
      reported _ document' objects' follows' bounded' reported' rfl

/-- The turns from a document whose tree lists too much come to an end. Each of them shortens the
list, until it lists no more than is inherited. -/
theorem Exceeds.acc (exceeds : document.Exceeds objects former) (separate : ¬ document.Nested) :
    Acc Approaches (document, objects) := by
  induction size : former.toFinset.card using Nat.strong_induction_on
    generalizing document objects former with
  | _ size shorter =>
    subst size
    refine .intro _ fun ⟨document', objects'⟩ ⟨turn, single⟩ => ?_
    have separate' : ¬ document'.Nested := fun nested =>
      separate (turn.kin.nested_iff.mp nested)
    rcases exceeds.turn single turn with ⟨lineage, exceeds', within, less⟩ | ⟨lineage, follows⟩
    · refine @shorter _ (Finset.card_lt_card ?_) document' objects' lineage exceeds' separate' rfl
      obtain ⟨path, held, gone⟩ : ∃ path ∈ former, path ∉ lineage := by
        simpa [List.subset_def] using less
      refine Finset.ssubset_iff_of_subset (fun path => ?_) |>.mpr ⟨path, ?_, ?_⟩
      · simpa using @within path
      · simpa using held
      · simpa using gone
    · obtain ⟨bound, bounded⟩ := exists_bounded separate' objects'
      exact follows.acc_of_bounded bounded

/-- The turns of every document come to an end, as long as nothing is listed twice. After the first
turn its tree lists too much or follows what is inherited. -/
theorem acc_approaches (separate : ¬ document.Nested) (objects : ObjectStore) :
    Acc Approaches (document, objects) := by
  have labelled : ∀ (document : Document) (objects : ObjectStore), ¬ document.Nested →
      document.isMarked = true → Acc Approaches (document, objects) := by
    refine fun document objects separate marked => .intro _ fun ⟨document', objects'⟩ step => ?_
    have separate' : ¬ document'.Nested := fun nested =>
      separate (step.1.kin.nested_iff.mp nested)
    obtain ⟨lineage, exceeds | follows⟩ := step.1.related marked
    · exact exceeds.acc separate'
    · obtain ⟨bound, bounded⟩ := exists_bounded separate' objects'
      exact follows.acc_of_bounded bounded
  refine .intro _ fun ⟨document', objects'⟩ step => ?_
  exact labelled document' objects' (fun nested => separate (step.1.kin.nested_iff.mp nested))
    step.1.isMarked

end DatasetSync.Document
