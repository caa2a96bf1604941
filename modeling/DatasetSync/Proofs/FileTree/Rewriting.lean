import Mathlib.Logic.Relation
import DatasetSync.Proofs.FileTree.Difference
import DatasetSync.Proofs.FileTree.Fixpoint
import DatasetSync.Proofs.FileTree.Timeless

/-!
# Other ways to write a spec

What a version draws from its sources can be written in many ways: in another order, with a source
named once or several times, with paths repeated, with a namespace said or left out. `Rewrites` is
one such change and `Rewritten` any number of them, there and back. Groups are rewritten into each
other exactly if they name the same sources, and the same paths of each source.

A comparison sees the sources and their paths alone. It comes to the same outcome for all ways to
write them, and for all ways to list what the parent version holds. If the comparisons are made at
different times, their outcomes differ at most in when conditions changed.
-/

namespace DatasetSync

namespace FileGroup

variable {fallback : String} {groups groups' groups'' : List FileGroup} {group : FileGroup}
  {source : QualifiedName} {path : String}

/-- One change of how groups are written, which leaves alone what they say. A source without a
namespace is in the fallback. -/
inductive Rewrites (fallback : String) : List FileGroup → List FileGroup → Prop
  /-- Groups change places. -/
  | permute {groups groups' : List FileGroup} (perm : groups.Perm groups') :
      Rewrites fallback groups groups'
  /-- The paths of a group are shared out to two groups of its source. -/
  | split (before after : List FileGroup) (source : Reference) (paths paths' : List String) :
      Rewrites fallback (before ++ ⟨source, paths ++ paths'⟩ :: after)
        (before ++ ⟨source, paths⟩ :: ⟨source, paths'⟩ :: after)
  /-- Paths change places, or are repeated. -/
  | relist (before after : List FileGroup) (source : Reference) {paths paths' : List String}
      (same : ∀ path, path ∈ paths ↔ path ∈ paths') :
      Rewrites fallback (before ++ ⟨source, paths⟩ :: after) (before ++ ⟨source, paths'⟩ :: after)
  /-- The namespace of a source is said where it was left out. -/
  | qualify (before after : List FileGroup) {source : Reference} (paths : List String)
      (omitted : source.ns = none) :
      Rewrites fallback (before ++ ⟨source, paths⟩ :: after)
        (before ++ ⟨{ source with ns := some fallback }, paths⟩ :: after)
  /-- A source is said to be of another kind. -/
  | retype (before after : List FileGroup) (source : Reference) (kind : String)
      (apiGroup : Option String) (paths : List String) :
      Rewrites fallback (before ++ ⟨source, paths⟩ :: after)
        (before ++ ⟨{ source with kind, apiGroup }, paths⟩ :: after)

/-- Groups are written in another way: any number of changes lead from one to the other, some of
them backwards. -/
def Rewritten (fallback : String) : List FileGroup → List FileGroup → Prop :=
  Relation.EqvGen (Rewrites fallback)

/-- A source is named. -/
def Names (fallback : String) (groups : List FileGroup) (source : QualifiedName) : Prop :=
  ∃ group ∈ groups, group.source.qualified fallback = source

/-- A path of a source is named. -/
def NamesPath (fallback : String) (groups : List FileGroup) (source : QualifiedName)
    (path : String) : Prop :=
  ∃ group ∈ groups, group.source.qualified fallback = source ∧ path ∈ group.paths

/-- Two lists of groups name the sources that the one or the other names. -/
@[simp] theorem names_append : Names fallback (groups ++ groups') source ↔
    Names fallback groups source ∨ Names fallback groups' source := by
  simp [Names, or_and_right, exists_or]

/-- A list of groups names the source of its first group and those that the others name. -/
@[simp] theorem names_cons : Names fallback (group :: groups) source ↔
    group.source.qualified fallback = source ∨ Names fallback groups source := by
  simp [Names]

/-- Two lists of groups name the paths of a source that the one or the other names. -/
@[simp] theorem namesPath_append : NamesPath fallback (groups ++ groups') source path ↔
    NamesPath fallback groups source path ∨ NamesPath fallback groups' source path := by
  simp [NamesPath, or_and_right, exists_or]

/-- A list of groups names for a source the paths of its first group, if that is of the source, and
those that the others name. -/
@[simp] theorem namesPath_cons : NamesPath fallback (group :: groups) source path ↔
    (group.source.qualified fallback = source ∧ path ∈ group.paths) ∨
      NamesPath fallback groups source path := by
  simp [NamesPath]

/-- Groups say the same: they name the same sources, and the same paths of each of them. -/
structure SaysSame (fallback : String) (groups groups' : List FileGroup) : Prop where
  sources : ∀ source, Names fallback groups source ↔ Names fallback groups' source
  paths : ∀ source path, NamesPath fallback groups source path ↔
    NamesPath fallback groups' source path

namespace SaysSame

/-- A list of groups says the same as itself. -/
theorem refl (groups : List FileGroup) : SaysSame fallback groups groups :=
  ⟨fun _ => .rfl, fun _ _ => .rfl⟩

/-- Saying the same is symmetric. -/
theorem symm (same : SaysSame fallback groups groups') : SaysSame fallback groups' groups :=
  ⟨fun source => (same.sources source).symm, fun source path => (same.paths source path).symm⟩

/-- Saying the same is transitive. -/
theorem trans (same : SaysSame fallback groups groups')
    (same' : SaysSame fallback groups' groups'') : SaysSame fallback groups groups'' :=
  ⟨fun source => (same.sources source).trans (same'.sources source),
    fun source path => (same.paths source path).trans (same'.paths source path)⟩

/-- One group of a list is replaced by one of the same source with the same paths. -/
theorem replace (before after : List FileGroup) {old new : FileGroup}
    (source : old.source.qualified fallback = new.source.qualified fallback)
    (paths : ∀ path, path ∈ old.paths ↔ path ∈ new.paths) :
    SaysSame fallback (before ++ old :: after) (before ++ new :: after) where
  sources _ := by simp [source]
  paths _ _ := by simp [source, paths]

end SaysSame

/-- A change of how groups are written leaves alone what they say. There is one case for each kind
of change, and each is an equivalence of disjunctions. -/
theorem Rewrites.saysSame (rewrites : Rewrites fallback groups groups') :
    SaysSame fallback groups groups' := by
  cases rewrites with
  | permute perm =>
    exact ⟨fun _ => by simp [Names, perm.mem_iff], fun _ _ => by simp [NamesPath, perm.mem_iff]⟩
  | split before after source paths paths' =>
    exact ⟨fun _ => by simp, fun _ _ => by simp [and_or_left, or_assoc]⟩
  | relist before after source same => exact .replace before after rfl same
  | qualify before after paths omitted =>
    refine .replace before after ?_ fun _ => .rfl
    simp [Reference.qualified, Reference.nsOr, omitted]
  | retype before after source kind apiGroup paths => exact .replace before after rfl fun _ => .rfl

namespace Rewritten

/-- A single change is a rewriting. -/
theorem of_rewrites (rewrites : Rewrites fallback groups groups') :
    Rewritten fallback groups groups' := .rel _ _ rewrites

/-- Every rewriting can be undone. -/
theorem symm (rewritten : Rewritten fallback groups groups') :
    Rewritten fallback groups' groups := Relation.EqvGen.symm _ _ rewritten

/-- Rewritings can be made one after the other. -/
theorem trans (rewritten : Rewritten fallback groups groups')
    (rewritten' : Rewritten fallback groups' groups'') : Rewritten fallback groups groups'' :=
  Relation.EqvGen.trans _ _ _ rewritten rewritten'

/-- Rewritings leave alone what groups say, as each single change does. The induction is on the
rewriting. -/
theorem saysSame (rewritten : Rewritten fallback groups groups') :
    SaysSame fallback groups groups' := by
  induction rewritten with
  | rel _ _ rewrites => exact rewrites.saysSame
  | refl groups => exact .refl groups
  | symm _ _ _ ih => exact ih.symm
  | trans _ _ _ _ _ ih ih' => exact ih.trans ih'

/-- A source can be named in all ways that give the same full name. Both ways lead to the one that
says the namespace and nothing of the kind. -/
theorem rename (before after : List FileGroup) {old new : Reference}
    (same : old.qualified fallback = new.qualified fallback) (paths : List String) :
    Rewritten fallback (before ++ ⟨old, paths⟩ :: after) (before ++ ⟨new, paths⟩ :: after) := by
  have full : ∀ source : Reference, Rewritten fallback (before ++ ⟨source, paths⟩ :: after)
      (before ++ ⟨⟨none, "", source.name, some (source.nsOr fallback)⟩, paths⟩ :: after) := by
    rintro ⟨apiGroup, kind, name, ns⟩
    have typed : Rewritten fallback (before ++ ⟨⟨apiGroup, kind, name, ns⟩, paths⟩ :: after)
        (before ++ ⟨⟨none, "", name, ns⟩, paths⟩ :: after) :=
      of_rewrites (.retype before after _ "" none paths)
    cases ns with
    | some ns => exact typed
    | none => exact typed.trans (of_rewrites (.qualify before after paths rfl))
  obtain ⟨ns, name⟩ := QualifiedName.mk.inj same
  have first := full old
  rw [ns, name] at first
  exact first.trans (full new).symm

/-- Paths that a group names can be named once more in front, under any name of its source. They are
repeated in the group itself, split off from it, renamed, and moved to the front. -/
theorem repeated (member : group ∈ groups) {source : Reference}
    (own : group.source.qualified fallback = source.qualified fallback) {paths : List String}
    (among : ∀ path ∈ paths, path ∈ group.paths) :
    Rewritten fallback groups (⟨source, paths⟩ :: groups) := by
  obtain ⟨before, after, rfl⟩ := List.append_of_mem member
  have again : Rewritten fallback (before ++ group :: after)
      (before ++ ⟨group.source, paths ++ group.paths⟩ :: after) :=
    of_rewrites (.relist before after group.source fun path => by simpa using among path)
  have apart : Rewritten fallback (before ++ ⟨group.source, paths ++ group.paths⟩ :: after)
      (before ++ ⟨group.source, paths⟩ :: group :: after) :=
    of_rewrites (.split before after group.source paths group.paths)
  have renamed := rename before (group :: after) own paths
  exact again.trans (apart.trans (renamed.trans (of_rewrites (.permute List.perm_middle))))

/-- A group whose source and paths are named already can be added. The induction is on its paths,
each of which is named by some group that is there. -/
theorem absorb (named : Names fallback groups (group.source.qualified fallback))
    (paths : ∀ path ∈ group.paths,
      NamesPath fallback groups (group.source.qualified fallback) path) :
    Rewritten fallback groups (group :: groups) := by
  obtain ⟨source, listed⟩ := group
  induction listed with
  | nil =>
    obtain ⟨other, member, own⟩ := named
    exact .repeated member own (by simp)
  | cons path listed ih =>
    obtain ⟨other, member, own, among⟩ := paths path List.mem_cons_self
    have rest := ih named fun path later => paths path (List.mem_cons_of_mem _ later)
    have added : Rewritten fallback (⟨source, listed⟩ :: groups)
        (⟨source, [path]⟩ :: ⟨source, listed⟩ :: groups) :=
      .repeated (List.mem_cons_of_mem _ member) own (by simpa using among)
    have joined : Rewritten fallback (⟨source, [path]⟩ :: ⟨source, listed⟩ :: groups)
        (⟨source, path :: listed⟩ :: groups) :=
      .symm (of_rewrites (.split [] groups source [path] listed))
    exact rest.trans (added.trans joined)

/-- Groups whose sources and paths are all named already can be added, one after the other. -/
theorem absorb_all {more : List FileGroup}
    (sources : ∀ source, Names fallback more source → Names fallback groups source)
    (paths : ∀ source path, NamesPath fallback more source path →
      NamesPath fallback groups source path) :
    Rewritten fallback groups (more ++ groups) := by
  induction more with
  | nil => exact .refl groups
  | cons group more ih =>
    have wider : ∀ {source path}, NamesPath fallback groups source path →
        NamesPath fallback (more ++ groups) source path := by
      rintro source path ⟨other, member, named⟩
      exact ⟨other, List.mem_append_right _ member, named⟩
    obtain ⟨other, member, own⟩ := sources _ ⟨group, List.mem_cons_self, rfl⟩
    have rest := ih
      (fun source ⟨other, member, own⟩ =>
        sources source ⟨other, List.mem_cons_of_mem _ member, own⟩)
      fun source path ⟨other, member, own⟩ =>
        paths source path ⟨other, List.mem_cons_of_mem _ member, own⟩
    refine rest.trans (absorb ⟨other, List.mem_append_right _ member, own⟩ fun path among => ?_)
    exact wider (paths _ path ⟨group, List.mem_cons_self, rfl, among⟩)

end Rewritten

/-- Groups are rewritten into each other exactly if they say the same. For the way back each of two
lists absorbs the other one, and the two joined lists are permuted into each other. -/
theorem rewritten_iff_saysSame :
    Rewritten fallback groups groups' ↔ SaysSame fallback groups groups' := by
  refine ⟨Rewritten.saysSame, fun same => ?_⟩
  have first : Rewritten fallback groups (groups' ++ groups) :=
    .absorb_all (fun source => (same.sources source).mpr) fun source path =>
      (same.paths source path).mpr
  have second : Rewritten fallback groups' (groups ++ groups') :=
    .absorb_all (fun source => (same.sources source).mp) fun source path =>
      (same.paths source path).mp
  exact first.trans ((Rewritten.of_rewrites (.permute List.perm_append_comm)).trans second.symm)

end FileGroup

/-- Groups that say the same declare the same files. The declared files are read off a map of sets,
and such maps are equal if they have the same sources with the same paths. -/
theorem FileTree.declared_congr {fallback : String} {groups groups' : List FileGroup}
    (same : FileGroup.SaysSame fallback groups groups') :
    declared fallback groups = declared fallback groups' := by
  have paths : declaredPaths fallback groups = declaredPaths fallback groups' := by
    refine OrderedMap.ext_of_get? fun source => ?_
    have named := same.sources source
    unfold FileGroup.Names at named
    rw [← get?_declaredPaths_iff, ← get?_declaredPaths_iff] at named
    have listed := same.paths source
    simp only [FileGroup.NamesPath, ← mem_declaredPaths_iff] at listed
    cases found : (declaredPaths fallback groups).get? source with
    | none =>
      cases found' : (declaredPaths fallback groups').get? source with
      | none => rfl
      | some paths => simp [found, found'] at named
    | some paths =>
      cases found' : (declaredPaths fallback groups').get? source with
      | none => simp [found, found'] at named
      | some paths' =>
        refine congrArg some (OrderedSet.ext_of_mem fun path => ?_)
        simpa [found, found'] using listed path
  unfold declared
  rw [paths]

/-- The report before a sync is the same at all times but for when it was made. -/
theorem FileTree.announced_timeless (now now' : Timestamp) (conditions : List Condition) :
    (announced now conditions).map Condition.timeless =
      (announced now' conditions).map Condition.timeless := by
  have made : (syncingCondition? now conditions).map Condition.timeless =
      (syncingCondition? now' conditions).map Condition.timeless := by
    unfold syncingCondition?
    split
    · rfl
    · cases Condition.findReady? conditions with
      | none => rfl
      | some ready =>
        dsimp only
        split <;> rfl
  unfold announced
  cases first : syncingCondition? now conditions <;>
    cases second : syncingCondition? now' conditions <;>
    simp_all [Condition.timeless_set]

/-- Outcomes that differ at most in when their conditions changed. -/
structure Outcome.SameButTimes (first second : Outcome) : Prop where
  statusChanged : first.statusChanged = second.statusChanged
  conditions : first.target.conditions.map Condition.timeless =
    second.target.conditions.map Condition.timeless
  files : first.target.files = second.target.files
  deleted : first.deleted = second.deleted

namespace Document

open FileTree

variable {document : Document} {groups : List FileGroup} {lineage lineage' : List String}

/-- The document with other groups in its spec. -/
def declaring (document : Document) (groups : List FileGroup) : Document :=
  { document with spec := { document.spec with fileGroups := groups } }

/-- Only what groups say and which paths are listed decides what a document declares. Neither order
nor repetition matters, and neither do namespaces that are left out or the kinds of references. -/
theorem declaredTree_rewritten
    (same : FileGroup.SaysSame document.ns document.spec.fileGroups groups)
    (listing : ∀ path, path ∈ lineage ↔ path ∈ lineage') :
    (document.declaring groups).declaredTree lineage' = document.declaredTree lineage := by
  rw [declaredTree_congr listing]
  have declared := declared_congr same
  unfold declaredTree
  rw [declared]
  rfl

/-- What a comparison comes to, told by what is declared and what is recorded. Nothing else of the
document enters into it but the reports that are there. -/
theorem reconcile_eq (document : Document) (now : Timestamp) (lineage : List String) :
    document.reconcile now lineage =
      let merged := merge document.ns document.recorded (document.declaredTree lineage)
      { statusChanged := merged.anyNew
        target := ⟨announced now document.statusOrInitial.conditions,
          sorted document.ns merged.tree⟩
        deleted := sorted document.ns (leftOver merged.rest) } := by
  unfold recorded
  rw [← files_statusOrInitial]
  rfl

/-- Comparisons of the same at the same time have the same outcome, whichever way the specification
and the listing are written. -/
theorem compareFor_congr (deleting : Bool) (now : Timestamp)
    (same : FileGroup.SaysSame document.ns document.spec.fileGroups groups)
    (listing : ∀ path, path ∈ lineage ↔ path ∈ lineage') :
    (document.declaring groups).compareFor deleting now lineage' =
      document.compareFor deleting now lineage := by
  cases deleting with
  | true => rfl
  | false =>
    change (document.declaring groups).reconcile now lineage' = document.reconcile now lineage
    rw [reconcile_eq, reconcile_eq, declaredTree_rewritten same listing]
    rfl

/-- The outcome of a comparison depends on its time only where it says when conditions changed. -/
theorem sameButTimes_compareFor (document : Document) (deleting : Bool) (now now' : Timestamp)
    (lineage : List String) :
    (document.compareFor deleting now lineage).SameButTimes
      (document.compareFor deleting now' lineage) := by
  cases deleting with
  | true => exact ⟨rfl, rfl, rfl, rfl⟩
  | false =>
    change (document.reconcile now lineage).SameButTimes (document.reconcile now' lineage)
    rw [reconcile_eq, reconcile_eq]
    exact ⟨rfl, announced_timeless now now' _, rfl, rfl⟩

/-- A comparison depends on the spec and on the listing as sets only. However the groups of the spec
are rewritten, and in whatever order and with whatever repetitions the parent version is listed, the
outcome is the same; at another time it is the same but for when conditions changed. -/
theorem compareFor_of_rewritten (document : Document) (deleting : Bool) (now now' : Timestamp)
    (rewritten : FileGroup.Rewritten document.ns document.spec.fileGroups groups)
    (listing : ∀ path, path ∈ lineage ↔ path ∈ lineage') :
    (document.declaring groups).compareFor deleting now lineage' =
        document.compareFor deleting now lineage ∧
      ((document.declaring groups).compareFor deleting now' lineage').SameButTimes
        (document.compareFor deleting now lineage) := by
  have same := FileGroup.rewritten_iff_saysSame.mp rewritten
  refine ⟨compareFor_congr deleting now same listing, ?_⟩
  rw [compareFor_congr deleting now' same listing]
  exact sameButTimes_compareFor document deleting now' now lineage

/-- The groups of a document that repeats sources and paths, with all that can be changed changed:
one group was split, and the pieces were shared out anew. -/
def tidiedGroups : List FileGroup :=
  let source (kind : String) : Reference :=
    { apiGroup := none, kind, name := "x", ns := some "team-a" }
  [⟨source Reference.datasourceKind, ["c.txt", "b.txt"]⟩, ⟨source "Bucket", ["a.txt"]⟩]

/-- The groups can be rewritten so, and the document has the same target and the same removals. -/
theorem untidyDocument_rewritten :
    FileGroup.Rewritten untidyDocument.ns untidyDocument.spec.fileGroups tidiedGroups ∧
      (untidyDocument.declaring tidiedGroups).compareFor false "" ["q.txt", "p.txt", "q.txt"] =
        untidyDocument.compareFor false "" ["p.txt", "q.txt"] ∧
      ((untidyDocument.declaring tidiedGroups).compareFor false "2024-05-01T08:00:00Z"
          ["q.txt", "p.txt", "q.txt"]).SameButTimes
        (untidyDocument.compareFor false "" ["p.txt", "q.txt"]) := by
  let source (kind : String) : Reference :=
    { apiGroup := none, kind, name := "x", ns := some "team-a" }
  let own := source Reference.datasourceKind
  have qualified : FileGroup.Rewritten "team-a" untidyDocument.spec.fileGroups
      [⟨own, ["b.txt", "a.txt", "a.txt"]⟩, ⟨own, ["c.txt"]⟩] :=
    .of_rewrites (.qualify [] _ _ rfl)
  have merged : FileGroup.Rewritten "team-a"
      [⟨own, ["b.txt", "a.txt", "a.txt"]⟩, ⟨own, ["c.txt"]⟩]
      [⟨own, ["b.txt", "a.txt", "a.txt", "c.txt"]⟩] :=
    .symm (.of_rewrites (.split [] [] own ["b.txt", "a.txt", "a.txt"] ["c.txt"]))
  have relisted : FileGroup.Rewritten "team-a" [⟨own, ["b.txt", "a.txt", "a.txt", "c.txt"]⟩]
      [⟨own, ["a.txt", "c.txt", "b.txt"]⟩] :=
    .of_rewrites (.relist [] [] own fun path => by simp; tauto)
  have split : FileGroup.Rewritten "team-a" [⟨own, ["a.txt", "c.txt", "b.txt"]⟩]
      [⟨own, ["a.txt"]⟩, ⟨own, ["c.txt", "b.txt"]⟩] :=
    .of_rewrites (.split [] [] own ["a.txt"] ["c.txt", "b.txt"])
  have retyped : FileGroup.Rewritten "team-a" [⟨own, ["a.txt"]⟩, ⟨own, ["c.txt", "b.txt"]⟩]
      [⟨source "Bucket", ["a.txt"]⟩, ⟨own, ["c.txt", "b.txt"]⟩] :=
    .of_rewrites (.retype [] _ own "Bucket" none ["a.txt"])
  have permuted : FileGroup.Rewritten "team-a"
      [⟨source "Bucket", ["a.txt"]⟩, ⟨own, ["c.txt", "b.txt"]⟩] tidiedGroups :=
    .of_rewrites (.permute (.swap ..))
  have rewritten := qualified.trans
    (merged.trans (relisted.trans (split.trans (retyped.trans permuted))))
  exact ⟨rewritten, compareFor_of_rewritten untidyDocument false "" "2024-05-01T08:00:00Z" rewritten
    fun path => by simp; tauto⟩

end Document

end DatasetSync
