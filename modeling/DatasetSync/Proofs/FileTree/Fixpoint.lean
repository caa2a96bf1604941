import DatasetSync.Proofs.FileTree.Report
import DatasetSync.Proofs.FileTree.Settled

/-!
# Comparisons that are made again

A comparison writes a status, and the next comparison starts from it. The files need one step to
come to rest: what the first comparison has entered is recorded for the second, which finds nothing
new and nothing to remove. The report on readiness needs two. The first comparison of a version
without reports says that its files are being synced, and the second, which finds that report, says
that the sync is tried again; from then on no report changes, and none is renewed.

A status that lists what is declared, and says that the version is ready, is at rest already. Its
files may be in any state.
-/

namespace DatasetSync

/-- A status is its reports and its files. -/
theorem Status.eq_of_parts {first second : Status}
    (conditions : first.conditions = second.conditions) (files : first.files = second.files) :
    first = second := by
  cases first
  cases conditions
  cases files
  rfl

namespace FileTree

variable {now later : Timestamp} {conditions : List Condition}

/-- The reports after the report before a sync was made. -/
def announced (now : Timestamp) (conditions : List Condition) : List Condition :=
  match syncingCondition? now conditions with
  | some condition => condition.set conditions
  | none => conditions

/-- No report is made about a version that is called ready, whatever has become of its files. -/
theorem announced_of_ready
    (ready : (Condition.findReady? conditions).any Condition.holds = true) :
    announced now conditions = conditions := by
  unfold announced
  split
  · rename_i condition made
    rw [(syncingCondition?_cases made).2.2] at ready
    cases ready
  · rfl

/-- There are reports once a report was to be made: either readiness was reported before, or it is
now. -/
theorem announced_ne_nil : announced now conditions ≠ [] := by
  unfold announced
  split
  · rename_i condition made
    obtain ⟨found, first, -⟩ := Condition.find?_set condition conditions
    exact List.ne_nil_of_mem (List.mem_of_find?_eq_some first)
  · rename_i silent
    rintro rfl
    cases silent

/-- Where there are reports, the report before a sync says that it is tried again. None is made if
the version is called ready, or if no report is on readiness. -/
theorem syncingCondition?_of_ne_nil (filled : conditions ≠ []) :
    syncingCondition? now conditions =
      if (Condition.findReady? conditions).all Condition.holds then none
      else some (.ready now .false Condition.syncingReason
        "file synchronization failed, try again") := by
  unfold syncingCondition?
  rw [if_neg (by simpa using filled)]
  cases Condition.findReady? conditions with
  | none => simp
  | some ready => simp

/-- Where there are reports, the report before a sync is made once: a second one would say the same
and is left out, or the version is called ready and there is none. -/
theorem announced_again (filled : conditions ≠ []) :
    announced later (announced now conditions) = announced now conditions := by
  by_cases quiet : (Condition.findReady? conditions).all Condition.holds = true
  · have silent : ∀ time, announced time conditions = conditions := fun time => by
      simp [announced, syncingCondition?_of_ne_nil filled, quiet]
    rw [silent, silent]
  · have set : announced now conditions = Condition.set (.ready now .false Condition.syncingReason
        "file synchronization failed, try again") conditions := by
      simp [announced, syncingCondition?_of_ne_nil filled, quiet]
    have written := @announced_ne_nil now conditions
    rw [set] at written ⊢
    rw [announced, syncingCondition?_of_ne_nil written]
    split
    · rename_i condition made
      split at made
      · cases made
      · obtain rfl := Option.some.inj made
        exact Condition.set_set (Condition.equivalent_ready now later _ _ _) conditions
    · rfl

end FileTree

namespace Document

open FileTree

variable {document : Document} {now later : Timestamp} {lineage : List String}

/-- The comparison for a document that is kept, or for one that is to be deleted. -/
def compareFor (document : Document) (deleting : Bool) (now : Timestamp) (lineage : List String) :
    Outcome :=
  if deleting then document.reconcileDeleted else document.reconcile now lineage

/-- The document with a status that was written. -/
def storing (document : Document) (status : Status) : Document :=
  { document with status := some status }

/-- The reports of a target are those of the status, with the report before a sync put among
them. -/
theorem target_conditions : (document.reconcile now lineage).target.conditions =
    announced now document.statusOrInitial.conditions := rfl

/-- A comparison of a status that lists what is declared finds nothing new and nothing to remove,
and leads to the files that are recorded. -/
theorem reconcile_of_aligned (now : Timestamp) (plain : ¬ document.Shadows)
    (aligned : document.Aligned lineage) :
    (document.reconcile now lineage).statusChanged = false ∧
      (document.reconcile now lineage).deleted = [] ∧
      (document.reconcile now lineage).target.files = document.files := by
  have unchanged : (document.reconcile now lineage).statusChanged = false :=
    aligned.unchanged (fun _ held => held) (not_doubles plain)
  have nothing : (document.reconcile now lineage).deleted = [] :=
    aligned.deleted_eq_nil fun _ held => held
  exact ⟨unchanged, nothing, aligned.target_eq unchanged⟩

/-- The status that a comparison writes lists what is declared, in order, so that the document is
aligned with it afterwards. -/
theorem aligned_storing (document : Document) (now : Timestamp) (lineage : List String) :
    (document.storing (document.reconcile now lineage).target).Aligned lineage :=
  outline_target

/-- A comparison keeps the whole status that another one wrote, if there were reports before.
Without reports the second one still has to make the first report. -/
theorem target_again (plain : ¬ document.Shadows)
    (filled : document.statusOrInitial.conditions ≠ []) :
    ((document.storing (document.reconcile now lineage).target).reconcile later lineage).target =
      (document.reconcile now lineage).target := by
  apply Status.eq_of_parts
  · rw [target_conditions]
    exact announced_again filled
  · have same : ¬ (document.storing (document.reconcile now lineage).target).Shadows := plain
    obtain ⟨-, -, files⟩ := reconcile_of_aligned later same (aligned_storing document now lineage)
    exact files

/-- The document after comparisons at several times, each of which stored its outcome. -/
def compared (document : Document) (lineage : List String) (times : List Timestamp) : Document :=
  times.foldl (fun current now => current.storing (current.reconcile now lineage).target) document

/-- However many comparisons follow, at whatever times, the status that was written stays, if there
were reports before. -/
theorem compared_storing (plain : ¬ document.Shadows)
    (filled : document.statusOrInitial.conditions ≠ []) (times : List Timestamp) :
    (document.storing (document.reconcile now lineage).target).compared lineage times =
      document.storing (document.reconcile now lineage).target := by
  induction times with
  | nil => rfl
  | cons later times ih =>
    have kept := @target_again document now later lineage plain filled
    rw [compared, List.foldl_cons, kept]
    exact ih

/-- What a comparison leads to is what is stored, if that lists what is declared and says that the
version is ready. -/
theorem reconcile_of_ready (plain : ¬ document.Shadows) (aligned : document.Aligned lineage)
    (ready : document.statusOrInitial.IsReady) :
    (document.reconcile now lineage).target = document.statusOrInitial := by
  obtain ⟨-, -, files⟩ := reconcile_of_aligned now plain aligned
  apply Status.eq_of_parts
  · exact announced_of_ready ready
  · exact files.trans (files_statusOrInitial document).symm

/-- A document without files has nothing to remove when it is to be deleted, and keeps its
status. -/
theorem reconcileDeleted_of_bare (bare : document.statusOrInitial.files = []) :
    document.reconcileDeleted.deleted = [] ∧
      document.reconcileDeleted.target = document.statusOrInitial := by
  constructor
  · exact bare
  · exact Status.eq_of_parts rfl bare.symm

/-- A comparison is made again and again, at any times, after its outcome was stored. The second
finds nothing new and nothing to remove, and keeps the files; the third keeps the whole status. A
status that lists what is declared, in order, and says that the version is ready is kept by the
first.

A document that is being deleted declares nothing: its target lists nothing, so nothing is listed
when the second comparison is made, and nothing is left to remove. -/
theorem compareFor_settles (document : Document) (plain : ¬ document.Shadows) (deleting : Bool)
    (lineage : List String) (now now' now'' : Timestamp) :
    let first := document.compareFor deleting now lineage
    let second := (document.storing first.target).compareFor deleting now' lineage
    let third := (document.storing second.target).compareFor deleting now'' lineage
    (second.statusChanged = false ∧ second.deleted = [] ∧
        second.target.files = first.target.files) ∧
      third.target = second.target ∧
      ∀ status, document.status = some status → status.IsReady →
        status.files.outline = first.target.files.outline →
          first.statusChanged = false ∧ first.deleted = [] ∧ first.target = status := by
  have stored : ∀ status, document.status = some status → document.statusOrInitial = status := by
    intro status held
    rw [statusOrInitial, held, Option.getD_some]
  intro first second third
  cases deleting with
  | true =>
    refine ⟨⟨rfl, rfl, rfl⟩, rfl, ?_⟩
    intro status held _ same
    have bare : document.statusOrInitial.files = [] := by
      rw [stored status held]
      exact List.map_eq_nil_iff.mp same
    obtain ⟨nothing, kept⟩ := reconcileDeleted_of_bare bare
    exact ⟨rfl, nothing, kept.trans (stored status held)⟩
  | false =>
    refine ⟨?_, ?_, ?_⟩
    · exact reconcile_of_aligned now' plain (aligned_storing document now lineage)
    · have filled : first.target.conditions ≠ [] := announced_ne_nil
      exact @target_again (document.storing first.target) now' now'' lineage plain filled
    · intro status held ready same
      have own := stored status held
      have aligned : document.Aligned lineage := by
        rw [Aligned, ← files_statusOrInitial, own, same]
        exact outline_target
      obtain ⟨unchanged, nothing, -⟩ := reconcile_of_aligned now plain aligned
      rw [← own] at ready
      exact ⟨unchanged, nothing, (reconcile_of_ready plain aligned ready).trans own⟩

/-- A version that was never looked at, with a file of its own and a parent. -/
def newDocument : Document :=
  { metadata := { Metadata.empty with name := some "ds-v1", ns := some "team-a" }
    spec :=
      { dataset := { apiGroup := none, kind := "Dataset", name := "ds", ns := none }
        version := "v1", inheritedFrom := some "v0", released := false
        fileGroups := [⟨⟨none, Reference.datasourceKind, "x", none⟩, ["a.txt"]⟩] }
    status := none }

/-- The status of the version once all its files were synced. -/
def readyStatus : Status :=
  { conditions := [.ready "2024-01-01T00:00:00Z" .true Condition.successReason ""]
    files :=
      [⟨⟨none, Reference.versionedDatasetKind, "inherited-from-v0", some "team-a"⟩,
          [.blank "p.txt" .succeeded]⟩,
        ⟨⟨none, Reference.datasourceKind, "x", some "team-a"⟩, [.blank "a.txt" .skipped]⟩] }

/-- The reports of a new version change once more when its files are at rest already, and then no
more. The status of a ready version stays as it is, whatever the state of its files. -/
theorem newDocument_settles :
    ¬ newDocument.Shadows ∧
      (let first := newDocument.compareFor false "2024-05-01T08:00:00Z" ["p.txt"]
        let second := (newDocument.storing first.target).compareFor false
          "2024-05-01T08:01:00Z" ["p.txt"]
        let third := (newDocument.storing second.target).compareFor false
          "2024-05-01T08:02:00Z" ["p.txt"]
        second.target.conditions ≠ first.target.conditions ∧
          second.target.files = first.target.files ∧ third.target = second.target) ∧
      ((newDocument.storing readyStatus).compareFor false "2024-05-01T08:00:00Z" ["p.txt"]).target =
        readyStatus := by
  have plain : ¬ newDocument.Shadows := by
    unfold Shadows
    decide
  obtain ⟨⟨-, -, files⟩, third, -⟩ :=
    compareFor_settles newDocument plain false ["p.txt"]
      "2024-05-01T08:00:00Z" "2024-05-01T08:01:00Z" "2024-05-01T08:02:00Z"
  obtain ⟨-, -, kept⟩ := compareFor_settles (newDocument.storing readyStatus) plain false ["p.txt"]
    "2024-05-01T08:00:00Z" "2024-05-01T08:01:00Z" "2024-05-01T08:02:00Z"
  exact ⟨plain, ⟨by decide, files, third⟩, (kept readyStatus rfl (by decide) (by decide)).2.2⟩

end Document

end DatasetSync
