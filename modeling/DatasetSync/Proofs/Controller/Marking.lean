import DatasetSync.Controller.Reconcile
import DatasetSync.Proofs.Store.Versions

/-!
# Labels and finalizer

Before anything else a look puts two labels and a finalizer on its document, unless it has them.
Labels and finalizers are shared with others, who set their own and may set these too, wrongly or
more than once.

`Marks` says what is put on, and that nothing else changes. One such write is enough: a document
that was marked needs no further marks (`Marks.settled`), nor does the version that a store makes
of it (`DocumentStore.marked?_of_update`).
-/

namespace DatasetSync

namespace Document

variable {document marked : Document}

/-- A document is marked if both labels have the values that its declaration asks for, not merely
any value, and the finalizer of the controller is among its finalizers. -/
theorem isMarked_iff : document.isMarked = true ↔
    document.labels.get? versionLabel = some document.spec.version ∧
      document.labels.get? ownerLabel = some document.datasetName ∧
        finalizer ∈ document.finalizers := by
  simp [isMarked, and_assoc]

/-- A document gets no labels and no finalizer exactly if it has them, so that a look at a marked
document writes nothing on this account. -/
theorem marked?_eq_none_iff : document.marked? = none ↔ document.isMarked = true := by
  unfold marked?
  split
  · rename_i complete
    simp [complete]
  · rename_i incomplete
    simp [incomplete]

/-- Marking a document changes nothing but its labels and finalizers. Name, owner, declaration,
status and token are those of the version that was read. -/
theorem rest_of_marked? (unmarked : document.marked? = some marked) :
    marked = { document with
      metadata := { document.metadata with
        labels := marked.metadata.labels, finalizers := marked.metadata.finalizers } } := by
  unfold marked? at unmarked
  split at unmarked
  · cases unmarked
  · cases unmarked
    rfl

/-- A marked document bears its two labels beside those that it had. The owner is looked up first;
the labels are different, so that the order does not matter. -/
theorem get?_labels_of_marked? (unmarked : document.marked? = some marked) (label : String) :
    marked.labels.get? label =
      if label = ownerLabel then some document.datasetName
      else if label = versionLabel then some document.spec.version
      else document.labels.get? label := by
  unfold marked? at unmarked
  split at unmarked
  · cases unmarked
  · cases unmarked
    simp only [labels, Option.getD_some, OrderedMap.get?_insert, eq_comm]

/-- A marked document has the finalizers that it had, and the one of the controller. -/
theorem finalizers_of_marked? (unmarked : document.marked? = some marked) :
    marked.finalizers =
      document.finalizers ++ if finalizer ∈ document.finalizers then [] else [finalizer] := by
  unfold marked? at unmarked
  split at unmarked
  · cases unmarked
  · cases unmarked
    by_cases present : finalizer ∈ document.finalizers
    · rw [if_pos present, List.append_nil]
      exact if_pos (List.contains_iff_mem.mpr present)
    · rw [if_neg present]
      exact if_neg (mt List.contains_iff_mem.mp present)

/-- What marking makes of a document. -/
structure Marks (document marked : Document) : Prop where
  version : marked.labels.get? versionLabel = some marked.spec.version
  owner : marked.labels.get? ownerLabel = some marked.datasetName
  guarded : finalizer ∈ marked.finalizers
  /-- The finalizer is put on once at most. -/
  once : marked.finalizers.count finalizer ≤ max 1 (document.finalizers.count finalizer)
  /-- Labels of others are as they were, whether or not there were any. -/
  labels : ∀ label, label ≠ versionLabel → label ≠ ownerLabel →
    marked.labels.get? label = document.labels.get? label
  /-- The finalizers that were there come first, in their order. -/
  former : document.finalizers <+: marked.finalizers
  /-- No other finalizer is put on. -/
  foreign : ∀ other ∈ marked.finalizers, other ≠ finalizer → other ∈ document.finalizers
  /-- Nothing else changes. -/
  rest : marked = { document with
    metadata := { document.metadata with
      labels := marked.metadata.labels, finalizers := marked.metadata.finalizers } }
  /-- Nothing is missing any more. -/
  settled : marked.marked? = none

/-- Whatever marking makes of a document bears all the marks, and keeps all that others have put
there. The labels are read off key by key; the finalizers are the former ones with at most one more
behind them. -/
theorem marks_of_marked? (unmarked : document.marked? = some marked) :
    document.Marks marked := by
  have rest := rest_of_marked? unmarked
  have listed := get?_labels_of_marked? unmarked
  have extended := finalizers_of_marked? unmarked
  have distinct : versionLabel ≠ ownerLabel := by decide
  have version : marked.labels.get? versionLabel = some marked.spec.version := by
    rw [listed, if_neg distinct, if_pos rfl, rest]
  have owner : marked.labels.get? ownerLabel = some marked.datasetName := by
    rw [listed, if_pos rfl, rest]
    rfl
  have guarded : finalizer ∈ marked.finalizers := by
    rw [extended, List.mem_append]
    by_cases present : finalizer ∈ document.finalizers
    · exact .inl present
    · exact .inr (by simp [present])
  refine ⟨version, owner, guarded, ?_, ?_, ?_, ?_, rest,
    marked?_eq_none_iff.mpr (isMarked_iff.mpr ⟨version, owner, guarded⟩)⟩
  · rw [extended, List.count_append]
    split
    · exact le_max_right _ _
    · rename_i absent
      simp [List.count_eq_zero.mpr absent]
  · intro label foreign own
    rw [listed, if_neg own, if_neg foreign]
  · exact extended ▸ List.prefix_append _ _
  · intro other member different
    rw [extended, List.mem_append] at member
    refine member.resolve_right fun added => different ?_
    split at added
    · cases added
    · exact List.mem_singleton.mp added

/-- A document is left alone exactly if labels and finalizer are in place; else it gets what is
missing, nothing of others is touched, and nothing is missing then. -/
theorem marking_settles (document : Document) :
    (document.marked? = none ↔
      document.labels.get? versionLabel = some document.spec.version ∧
        document.labels.get? ownerLabel = some document.datasetName ∧
          finalizer ∈ document.finalizers) ∧
      ∀ marked, document.marked? = some marked → document.Marks marked :=
  ⟨marked?_eq_none_iff.trans isMarked_iff, fun _ unmarked => marks_of_marked? unmarked⟩

/-- A document of version `v2` with the label of its former version, a label and a finalizer of
others, and the finalizer of the controller, which somebody has put on twice. -/
def staleDocument : Document :=
  { metadata := { Metadata.empty with
      name := some "ds-v2", ns := some "team-a"
      labels := some (.ofList [("app", "training"), (versionLabel, "v1")])
      finalizers := some [finalizer, "backup/finalizer", finalizer] }
    spec := { dataset := { apiGroup := none, kind := "Dataset", name := "ds", ns := none }
              version := "v2", inheritedFrom := none, fileGroups := [], released := false }
    status := none }

/-- The stale label is rewritten, the missing one is added, and all else stays: the label of others,
the order of the finalizers, and even the finalizer that is there twice. -/
theorem marking_settles_stale :
    ∃ marked, staleDocument.marked? = some marked ∧ staleDocument.Marks marked ∧
      marked.labels.get? versionLabel = some "v2" ∧ marked.labels.get? ownerLabel = some "ds" ∧
      marked.labels.get? "app" = some "training" ∧
      marked.finalizers = [finalizer, "backup/finalizer", finalizer] := by
  refine ⟨_, rfl, (marking_settles staleDocument).2 _ rfl, ?_⟩
  decide

end Document

/-- The version that a store makes of a marked document needs no further marks. The store changes
its token and keeps its status; neither is looked at to tell whether a document is marked. -/
theorem DocumentStore.marked?_of_update {store : DocumentStore} {document marked updated : Document}
    (unmarked : document.marked? = some marked)
    (written : (store.update marked).1 = .ok updated) : updated.marked? = none := by
  have complete := Document.marked?_eq_none_iff.mp (Document.marks_of_marked? unmarked).settled
  rcases store.update_cases marked with ⟨error, failed, -⟩ | ⟨stored, -, -, -, answered, -⟩
  · rw [failed] at written
    cases written
  · rw [answered] at written
    cases written
    exact Document.marked?_eq_none_iff.mpr complete

end DatasetSync
