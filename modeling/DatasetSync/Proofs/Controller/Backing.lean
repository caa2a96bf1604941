import Mathlib.Order.Bounds.Basic
import DatasetSync.Proofs.Controller.Crediting
import DatasetSync.Proofs.Controller.Descent

/-!
# Objects behind credited files

From the first copy on that is launched for a declaration, nothing that the version lists is
removed any more, since copies only add to what it inherits. Every file that a later status
credits was credited when that copy was launched, or has earned it: there is a file of the same
source that was not credited then, whose object is at its place, and whose copy is attributed to
the credited file.

Before that first copy nothing becomes credited at all. So every credit is one that the
declaration has found, or is earned. Where all files are settled, the earned ones have objects of
their own: the copy of a misread path is attributed to a shorter one, and a path that nothing is
attributed to stays without credit.
-/

namespace DatasetSync

namespace Document

open FileTree SyncPlan

variable {document document' : Document} {objects objects' : ObjectStore} {now : Timestamp}
  {lineage : List String} {source : QualifiedName} {path : String} {file : FileRecord}
  {former carried : QualifiedName → String → Prop}

/-- A document asks for a file: it declares the file, or its parent version holds it. -/
def Wants (document : Document) (objects : ObjectStore) (source : QualifiedName) (path : String) :
    Prop :=
  document.Declares source path ∨
    (document.lineageReference.qualified document.ns = source ∧ document.Inherits objects path)

/-- What a document asks for is what it lists when it is compared with that listing of the store. -/
theorem lists_declaredTree_iff_wants (listed : document.lineageIn objects = .ok lineage) :
    (document.declaredTree lineage).Lists document.ns source path ↔
      document.Wants objects source path := by
  rw [lists_declaredTree_iff, Wants, mem_lineageIn_iff listed]
  refine or_congr_right ⟨fun ⟨_, same, held⟩ => ⟨same, held⟩, fun ⟨same, held⟩ => ⟨?_, same, held⟩⟩
  obtain ⟨-, parent, inherits, -⟩ := held
  simp [inherits]

/-- Where all objects stay, a document asks for what it asked for: its declaration has not changed,
and what it inherits is still there. -/
theorem Wants.mono (wants : document.Wants objects source path)
    (more : ∀ place, objects.Holds place → objects'.Holds place) :
    document.Wants objects' source path :=
  wants.imp_right fun ⟨same, held⟩ => ⟨same, held.mono more⟩

namespace Kin

variable (kin : document.Kin document')

include kin

/-- The namespace is part of the declaration, which both versions share. -/
theorem ns_eq : document'.ns = document.ns := by
  unfold Document.ns
  rw [kin.ns]

/-- What is asked for depends on the declaration and on the objects only, and not on what a status
records. -/
theorem wants_iff : document'.Wants objects source path ↔ document.Wants objects source path := by
  unfold Wants Declares lineageReference
  rw [kin.inherits_iff, kin.ns_eq, kin.spec]

/-- What a copy is attributed to depends on the declaration only: on the declared files and the name
of the dataset. -/
theorem attributes_iff {origin : String} :
    document'.Attributes source origin path ↔ document.Attributes source origin path := by
  unfold Attributes Misreads Declares datasetName
  rw [kin.ns_eq, kin.spec]

/-- The place of a path depends on the declaration only: on dataset, version and namespace, which
both versions share. -/
theorem place_eq : document'.place path = document.place path := by
  unfold place datasetNs datasetName
  rw [kin.ns, kin.spec]

end Kin

/-- A file has earned its credit: a file of the same source that is not one of the carried ones
has its object at its place, and its copy is attributed to the file. -/
def Earned (document : Document) (objects : ObjectStore)
    (carried : QualifiedName → String → Prop) (source : QualifiedName) (path : String) : Prop :=
  ∃ origin, ¬ carried source origin ∧ document.files.Lists document.ns source origin ∧
    document.Attributes source origin path ∧ objects.Holds (document.place origin)

/-- A status after a copy was launched: it lists nothing that the document does not ask for, and
what it credits is carried or earned. -/
structure Backed (document : Document) (objects : ObjectStore)
    (carried : QualifiedName → String → Prop) : Prop where
  wanted : ∀ source path, document.files.Lists document.ns source path →
    document.Wants objects source path
  kept : ∀ source path, carried source path → document.Credits source path
  backed : ∀ source path, document.Credits source path →
    carried source path ∨ document.Earned objects carried source path

/-- When a copy is launched, nothing is credited but what is carried over it: every path that is
listed is asked for, as nothing was left to remove. -/
theorem backed_of_listed (listed : document.lineageIn objects = .ok lineage)
    (nothing : (document.reconcile now lineage).deleted = []) :
    document.Backed objects document.Credits where
  wanted source path lists :=
    (lists_declaredTree_iff_wants listed).mp (deleted_eq_nil_iff.mp nothing source path lists)
  kept _ _ credits := credits
  backed _ _ credits := .inl credits

/-- A status that lists only what is asked for has nothing to be removed. -/
theorem Backed.deleted_eq_nil (backed : document.Backed objects carried)
    (listed : document.lineageIn objects = .ok lineage) :
    (document.reconcile now lineage).deleted = [] :=
  deleted_eq_nil_iff.mpr fun source path lists =>
    (lists_declaredTree_iff_wants listed).mpr (backed.wanted source path lists)

/-- A version follows another one, and objects others, without a loss: objects and listed files
stay, what is listed is asked for, and each new credit is earned by a file that had none. -/
structure Advanced (document : Document) (objects : ObjectStore) (document' : Document)
    (objects' : ObjectStore) : Prop where
  kin : document.Kin document'
  grows : ∀ place, objects.Holds place → objects'.Holds place
  lists : ∀ source path, document.files.Lists document.ns source path →
    document'.files.Lists document.ns source path
  wanted : ∀ source path, document'.files.Lists document.ns source path →
    document.Wants objects' source path
  credits : ∀ source path, document'.Credits source path → document.Credits source path ∨
    ∃ origin, ¬ document.Credits source origin ∧ document'.files.Lists document.ns source origin ∧
      document.Attributes source origin path ∧ objects'.Holds (document.place origin)

/-- Of what was carried, a later version carries what it still credits; the rest is earned. Whoever
had no credit was not carried, and has its object where it is credited now. -/
theorem Backed.advance (backed : document.Backed objects carried)
    (advanced : document.Advanced objects document' objects') :
    document'.Backed objects' fun source path =>
      carried source path ∧ document'.Credits source path := by
  obtain ⟨kin, grows, lists, wanted, credits⟩ := advanced
  refine ⟨fun source path listed => ?_, fun source path both => both.2, fun source path credited => ?_⟩
  · rw [kin.ns_eq] at listed
    exact kin.wants_iff.mpr (wanted source path listed)
  by_cases own : carried source path
  · exact .inl ⟨own, credited⟩
  have earns : ∀ origin, ¬ carried source origin → document'.files.Lists document.ns source origin →
      document.Attributes source origin path → objects'.Holds (document.place origin) →
      document'.Earned objects' (fun source path =>
        carried source path ∧ document'.Credits source path) source path := by
    intro origin other listed attributes held
    refine ⟨origin, fun both => other both.1, ?_, kin.attributes_iff.mpr attributes, ?_⟩
    · rw [kin.ns_eq]
      exact listed
    · rw [kin.place_eq]
      exact held
  refine .inr ?_
  rcases credits source path credited with before | ⟨origin, none, listed, attributes, held⟩
  · rcases backed.backed source path before with carries | ⟨origin, other, listed, attributes, held⟩
    · exact absurd carries own
    · exact earns origin other (lists source origin listed) attributes (grows _ held)
  · exact earns origin (fun carries => none (backed.kept source origin carries)) listed attributes
      held

/-- Where all files are settled, no misread path is listed without being carried. Its credit
would come from a longer path of the same kind, and paths are not longer for ever, as the tree
is finite. -/
theorem Backed.carried_of_misreads (backed : document.Backed objects carried)
    (settled : ∀ file ∈ document.files.allFiles, file.phase.isSettled = true)
    (listed : document.files.Lists document.ns source path)
    (misreads : document.Misreads source path) : carried source path := by
  by_contra other
  obtain ⟨bound, bounded⟩ :=
    (document.files.allFiles.map fun file => file.path.length).toFinset.exists_le
  have short : ∀ path, document.files.Lists document.ns source path → path.length ≤ bound := by
    rintro path ⟨file, ⟨group, member, -, inGroup⟩, rfl⟩
    refine bounded _ (List.mem_toFinset.mpr (List.mem_map.mpr ⟨file, ?_, rfl⟩))
    exact List.mem_flatMap.mpr ⟨group, member, inGroup⟩
  induction room : bound - path.length using Nat.strong_induction_on generalizing path with
  | _ room longer =>
    rcases backed.backed source path (credits_of_settled settled listed) with
      carries | ⟨origin, other', listed', ⟨-, plain⟩ | ⟨misreads', less⟩, -⟩
    · exact other carries
    · exact plain misreads
    · have within := short origin listed'
      exact longer (bound - origin.length) (by omega) listed' misreads' other' rfl

/-- Where all files are settled, each of them is carried or has its object at its place. -/
theorem Backed.carried_or_held (backed : document.Backed objects carried)
    (settled : ∀ file ∈ document.files.allFiles, file.phase.isSettled = true)
    (listed : document.files.Lists document.ns source path) :
    carried source path ∨ objects.Holds (document.place path) := by
  rcases backed.backed source path (credits_of_settled settled listed) with
    carries | ⟨origin, other, listed', ⟨rfl, -⟩ | ⟨misreads, -⟩, held⟩
  · exact .inl carries
  · exact .inr held
  · exact absurd (backed.carried_of_misreads settled listed' misreads) other

/-- A version with the same files follows another one without a loss, where all objects stay: what
was wanted is wanted, and what was settled has its object. -/
theorem advanced_of_same (kin : document.Kin document') (same : document'.files = document.files)
    (grows : ∀ place, objects.Holds place → objects'.Holds place)
    (wanted : ∀ source path, document.files.Lists document.ns source path →
      document.Wants objects source path) :
    document.Advanced objects document' objects' where
  kin := kin
  grows := grows
  lists source path listed := same.symm ▸ listed
  wanted source path listed := (wanted source path (same ▸ listed)).mono grows
  credits source path credited := by
    unfold Credits recorded at credited
    rw [kin.ns_eq, same] at credited
    exact .inl credited

/-- A target credits nothing but what the version credits that it was made from: its files are the
records of that version, or they are blank. -/
theorem credits_of_written (kin : document.Kin document')
    (files : document'.files = (document.reconcile now lineage).target.files)
    (credited : document'.Credits source path) : document.Credits source path := by
  obtain ⟨file, found, settled⟩ := credited
  obtain ⟨records, rfl⟩ := records_of_record? found
  rw [kin.ns_eq, files] at records
  exact credits_of_target records settled

/-- What a version lists with the sources and paths of a target is what is asked for. -/
theorem lists_iff_wants (listed : document.lineageIn objects = .ok lineage) {tree : FileTree}
    (same : tree.outline = (document.reconcile now lineage).target.files.outline) :
    tree.Lists document.ns source path ↔ document.Wants objects source path := by
  rw [lists_of_outline same, lists_target_iff, lists_declaredTree_iff_wants listed]

/-- A target that was written follows the version that it was made from without a loss, if that
lists only what is asked for. -/
theorem advanced_of_target (kin : document.Kin document')
    (files : document'.files = (document.reconcile now lineage).target.files)
    (listed : document.lineageIn objects = .ok lineage)
    (grows : ∀ place, objects.Holds place → objects'.Holds place)
    (wanted : ∀ source path, document.files.Lists document.ns source path →
      document.Wants objects source path) :
    document.Advanced objects document' objects' where
  kin := kin
  grows := grows
  lists source path lists := (lists_iff_wants listed (by rw [files])).mpr (wanted source path lists)
  wanted source path lists := ((lists_iff_wants listed (by rw [files])).mp lists).mono grows
  credits _ _ credited := .inl (credits_of_written kin files credited)

/-- What a copy has committed follows the version that it was launched for without a loss: each
new credit is earned by a file that was being processed. -/
theorem advanced_of_commit {tree : FileTree} (kin : document.Kin document')
    (files : document'.files = tree)
    (outline : tree.outline = (document.reconcile now lineage).target.files.outline)
    (listed : document.lineageIn objects = .ok lineage)
    (unchanged : (document.reconcile now lineage).statusChanged = false)
    (grows : ∀ place, objects.Holds place → objects'.Holds place)
    (wanted : ∀ source path, document.files.Lists document.ns source path →
      document.Wants objects source path)
    (credited : ∀ source file, tree.Records document.ns source file →
      file.phase.isSettled = true →
        document.MaySettle (document.reconcile now lineage).target.files objects' source
          file.path) :
    document.Advanced objects document' objects' where
  kin := kin
  grows := grows
  lists source path lists := by
    rw [files]
    exact (lists_iff_wants listed outline).mpr (wanted source path lists)
  wanted source path lists := by
    rw [files] at lists
    exact ((lists_iff_wants listed outline).mp lists).mono grows
  credits source path credits := by
    obtain ⟨file, found, settled⟩ := credits
    obtain ⟨records, rfl⟩ := records_of_record? found
    rw [kin.ns_eq, files] at records
    rcases credited source file records settled with
      ⟨former, records', same, settled'⟩ | ⟨origin, records', processing, attributes, held⟩
    · exact .inl (same ▸ credits_of_target records' settled')
    · refine .inr ⟨origin.path, ?_, ?_, attributes, held⟩
      · rintro ⟨file, found', settled'⟩
        rw [recorded_of_unchanged unchanged records'] at found'
        cases found'
        rw [processing] at settled'
        cases settled'
      · rw [files, lists_of_outline outline]
        exact ⟨origin, records', rfl⟩

/-- The credits of a version are among former ones, or a copy was launched and each other one is
earned. -/
inductive Trusted (document : Document) (objects : ObjectStore)
    (former : QualifiedName → String → Prop) : Prop
  | untouched (only : ∀ source path, document.Credits source path → former source path)
  | copied {carried : QualifiedName → String → Prop}
      (within : ∀ source path, carried source path → former source path)
      (backed : document.Backed objects carried)

namespace Trusted

variable (trusted : document.Trusted objects former)

include trusted

/-- When a copy is launched, the credits that are carried over it are among the former ones. -/
theorem backed (listed : document.lineageIn objects = .ok lineage)
    (nothing : (document.reconcile now lineage).deleted = []) :
    ∃ carried : QualifiedName → String → Prop,
      (∀ source path, carried source path → former source path) ∧
        document.Backed objects carried := by
  cases trusted with
  | untouched only => exact ⟨document.Credits, only, backed_of_listed listed nothing⟩
  | copied within backed => exact ⟨_, within, backed⟩

/-- Credits are trusted after another write of the same files, where all objects stay. -/
theorem same (kin : document.Kin document') (same : document'.files = document.files)
    (grows : ∀ place, objects.Holds place → objects'.Holds place) :
    document'.Trusted objects' former := by
  cases trusted with
  | untouched only =>
    refine .untouched fun source path credited => only source path ?_
    unfold Credits recorded at credited
    rwa [kin.ns_eq, same] at credited
  | copied within backed =>
    exact .copied (fun source path both => within source path both.1)
      (backed.advance (advanced_of_same kin same grows backed.wanted))

/-- Credits are trusted after a target was written, where all objects stay if nothing was to be
removed. -/
theorem target (kin : document.Kin document')
    (files : document'.files = (document.reconcile now lineage).target.files)
    (listed : document.lineageIn objects = .ok lineage)
    (grows : (document.reconcile now lineage).deleted = [] →
      ∀ place, objects.Holds place → objects'.Holds place) : document'.Trusted objects' former := by
  cases trusted with
  | untouched only =>
    exact .untouched fun source path credited =>
      only source path (credits_of_written kin files credited)
  | copied within backed =>
    exact .copied (fun source path both => within source path both.1) (backed.advance
      (advanced_of_target kin files listed (grows (backed.deleted_eq_nil listed)) backed.wanted))

/-- Where all files are settled, each of them was credited formerly or has its object at its
place. -/
theorem carried_or_held
    (settled : ∀ file ∈ document.files.allFiles, file.phase.isSettled = true)
    (listed : document.files.Lists document.ns source path) :
    former source path ∨ objects.Holds (document.place path) := by
  cases trusted with
  | untouched only => exact .inl (only source path (credits_of_settled settled listed))
  | copied within backed =>
    exact (backed.carried_or_held settled listed).imp_left (within source path)

end Trusted

end Document

end DatasetSync
