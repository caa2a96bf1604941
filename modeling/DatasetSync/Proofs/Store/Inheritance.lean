import Mathlib.Data.Finset.Card
import Mathlib.Data.List.Infix
import DatasetSync.Lineage
import DatasetSync.Proofs.Ordered.Lookup
import DatasetSync.Proofs.Store.Objects

/-!
# What a version inherits

A version inherits the paths of all objects that its parent version holds. The files of the
version are objects of the same bucket, and a key of theirs may read like a key of the parent.
A copy may thus add to what is inherited. What it adds is a last part of the path that was
copied, except if the name of the version continues that of its parent behind a slash: then
every copy puts a longer path among the objects of the parent.
-/

namespace DatasetSync

namespace Layout

variable {dataset version parent path landed : String}

/-- A path without a leading slash is a last part of the path. -/
theorem relative_suffix (path : String) : (relative path).toList <:+ path.toList := by
  unfold relative
  cases stripped : Text.stripPrefix? "/" path with
  | none => exact List.suffix_rfl
  | some rest =>
    rw [Text.stripPrefix?_eq_some_iff.mp stripped, String.toList_append]
    exact List.suffix_append _ _

/-- One leading slash is taken off, and only one: a second one stays. -/
theorem relative_slash (path : String) : relative ("/" ++ path) = path := by
  have stripped : Text.stripPrefix? "/" ("/" ++ path) = some path :=
    Text.stripPrefix?_eq_some_iff.mpr rfl
  rw [relative, stripped]
  rfl

/-- Which paths are one path without a leading slash: this path with a slash in front, and the path
itself unless it begins with a slash. -/
theorem relative_eq_iff {rest : String} :
    relative path = rest ↔ path = "/" ++ rest ∨ (path = rest ∧ ∀ tail, rest ≠ "/" ++ tail) := by
  unfold relative
  cases stripped : Text.stripPrefix? "/" path with
  | none =>
    have plain : ∀ tail, path ≠ "/" ++ tail := by
      intro tail slashed
      rw [Text.stripPrefix?_eq_some_iff.mpr slashed] at stripped
      cases stripped
    rw [Option.getD_none]
    constructor
    · rintro rfl
      exact .inr ⟨rfl, plain⟩
    · rintro (slashed | ⟨same, -⟩)
      · exact absurd slashed (plain rest)
      · exact same
  | some tail =>
    obtain rfl := Text.stripPrefix?_eq_some_iff.mp stripped
    rw [Option.getD_some, String.append_right_inj]
    constructor
    · exact .inl
    · rintro (same | ⟨rfl, plain⟩)
      · exact same
      · exact absurd rfl (plain tail)

/-- A text is cut at its first slash in one way only. Names without slashes are told apart by what
stands before it. -/
theorem append_slash_inj {name name' rest rest' : String} (flat : '/' ∉ name.toList)
    (flat' : '/' ∉ name'.toList) (same : name ++ "/" ++ rest = name' ++ "/" ++ rest') :
    name = name' ∧ rest = rest' := by
  have letters : name.toList ++ '/' :: rest.toList = name'.toList ++ '/' :: rest'.toList := by
    simpa using congrArg String.toList same
  have name_of : ∀ name tail : List Char, '/' ∉ name →
      (name ++ '/' :: tail).takeWhile (· ≠ '/') = name := by
    intro name tail flat
    have whole : ∀ letter ∈ name, decide (letter ≠ '/') = true := by
      rintro letter member
      refine decide_eq_true ?_
      rintro rfl
      exact flat member
    rw [List.takeWhile_append_of_pos whole]
    simp
  have names : name = name' := by
    apply String.toList_inj.mp
    rw [← name_of _ rest.toList flat, letters, name_of _ rest'.toList flat']
  subst names
  exact ⟨rfl, by simpa using same⟩

/-- Versions whose names have no slash have no key in common, and what follows the prefix is told by
the key. -/
theorem versionPrefix_append_inj {rest rest' : String} (flat : '/' ∉ version.toList)
    (flat' : '/' ∉ parent.toList)
    (same : versionPrefix dataset version ++ rest = versionPrefix dataset parent ++ rest') :
    version = parent ∧ rest = rest' := by
  refine append_slash_inj flat flat' ?_
  simpa only [versionPrefix, String.append_assoc, String.append_right_inj] using same

/-- A key of one version reads like a key of another one if what follows the dataset does. -/
theorem objectKey_eq_iff : objectKey dataset version path = versionPrefix dataset parent ++ landed ↔
    version ++ "/" ++ relative path = parent ++ "/" ++ landed := by
  simp only [objectKey, versionPrefix, String.append_assoc, String.append_right_inj]

/-- If a key of a version reads like one of another version, the path under which it is listed there
is a last part of the path, or the version is below the other one. In the second case the version
goes on behind the slash of the other one, up to its own slash. -/
theorem landed_cases
    (lands : objectKey dataset version path = versionPrefix dataset parent ++ landed) :
    landed.toList <:+ path.toList ∨
      ∃ rest, version = parent ++ "/" ++ rest ∧ landed = rest ++ "/" ++ relative path := by
  have split := congrArg String.toList (objectKey_eq_iff.mp lands)
  simp only [String.toList_append] at split
  rcases List.append_eq_append_iff.mp split with ⟨between, -, tail⟩ | ⟨between, front, tail⟩
  · exact .inl ((tail ▸ List.suffix_append between landed.toList).trans (relative_suffix path))
  · rcases List.eq_nil_or_concat between with rfl | ⟨rest, last, rfl⟩
    · rw [List.nil_append] at tail
      exact .inl (tail ▸ relative_suffix path)
    · rw [List.concat_eq_append, ← List.append_assoc] at front
      have slash : ("/" : String).toList = ['/'] := rfl
      rw [slash] at front
      obtain ⟨name, end'⟩ := List.append_inj' front rfl
      obtain rfl := (List.cons.inj end').1
      refine .inr ⟨String.ofList rest, ?_, ?_⟩
      · apply String.toList_inj.mp
        simp [name]
      · apply String.toList_inj.mp
        simp [tail]

/-- Unless a version is below another one, only finitely many paths come of one path by copying it,
listing the copy among the objects of the other version, and so on. A version that is the other one
with a slash lists its copies with one leading slash, which goes off again. -/
theorem exists_closed_of_path (apart : ∀ rest, version = parent ++ "/" ++ rest → rest = "")
    (path : String) :
    ∃ closed : Finset String, path ∈ closed ∧ ∀ path ∈ closed, ∀ landed,
      objectKey dataset version path = versionPrefix dataset parent ++ landed →
        landed ∈ closed := by
  by_cases continued : version = parent ++ "/"
  · refine ⟨{path, "/" ++ relative path}, by simp, fun other member landed lands => ?_⟩
    have same : landed = "/" ++ relative other := by
      rw [objectKey_eq_iff, continued, String.append_assoc, String.append_assoc,
        String.append_assoc, String.append_right_inj, String.append_right_inj] at lands
      exact lands.symm
    have settled : relative other = relative path := by
      rcases Finset.mem_insert.mp member with rfl | second
      · rfl
      · rw [Finset.mem_singleton.mp second, relative_slash]
    simp [same, settled]
  · refine ⟨(path.toList.tails.map String.ofList).toFinset, ?_, fun other member landed lands => ?_⟩
    · simp only [List.mem_toFinset, List.mem_map, List.mem_tails]
      exact ⟨path.toList, List.suffix_rfl, String.ofList_toList⟩
    · simp only [List.mem_toFinset, List.mem_map, List.mem_tails] at member ⊢
      obtain ⟨characters, suffix, rfl⟩ := member
      rcases landed_cases lands with shorter | ⟨rest, below, -⟩
      · rw [String.toList_ofList] at shorter
        exact ⟨landed.toList, shorter.trans suffix, String.ofList_toList⟩
      · obtain rfl := apart rest below
        exact absurd (by simpa using below) continued

end Layout

namespace Document

variable {document : Document} {objects : ObjectStore} {path landed : String}

/-- The parent version holds an object of a path. -/
def Inherits (document : Document) (objects : ObjectStore) (path : String) : Prop :=
  path ≠ "" ∧ ∃ parent, document.spec.parent? = some parent ∧
    objects.Holds ⟨document.datasetNs, Layout.versionPrefix document.datasetName parent ++ path⟩

/-- Where all objects stay, what was inherited is inherited. More objects may have come. -/
theorem Inherits.mono {objects' : ObjectStore} (held : document.Inherits objects path)
    (more : ∀ place, objects.Holds place → objects'.Holds place) :
    document.Inherits objects' path := by
  obtain ⟨named, parent, inherits, present⟩ := held
  exact ⟨named, parent, inherits, more _ present⟩

/-- A copy to a path of the version is listed among the objects of the parent version. -/
def Lands (document : Document) (path landed : String) : Prop :=
  ∃ parent, document.spec.parent? = some parent ∧
    Layout.objectKey document.datasetName document.spec.version path =
      Layout.versionPrefix document.datasetName parent ++ landed

/-- The name of the version continues that of its parent behind a slash. -/
def Nested (document : Document) : Prop :=
  ∃ parent rest, document.spec.parent? = some parent ∧ rest ≠ "" ∧
    document.spec.version = parent ++ "/" ++ rest

/-- Unless a version is nested in its parent, only finitely many paths can ever come of given
ones. -/
theorem exists_closed (separate : ¬ document.Nested) (seeds : List String) :
    ∃ closed : Finset String, (∀ path ∈ seeds, path ∈ closed) ∧
      ∀ path ∈ closed, ∀ landed, document.Lands path landed → landed ∈ closed := by
  cases inherits : document.spec.parent? with
  | none =>
    refine ⟨seeds.toFinset, by simp, ?_⟩
    rintro path - landed ⟨parent, other, -⟩
    rw [inherits] at other
    cases other
  | some parent =>
    have apart : ∀ rest, document.spec.version = parent ++ "/" ++ rest → rest = "" :=
      fun rest below => by_contra fun some => separate ⟨parent, rest, inherits, some, below⟩
    induction seeds with
    | nil => exact ⟨∅, by simp⟩
    | cons path seeds ih =>
      obtain ⟨closed, listed, lands⟩ := ih
      obtain ⟨own, member, lands'⟩ :=
        @Layout.exists_closed_of_path document.datasetName _ _ apart path
      refine ⟨own ∪ closed, ?_, ?_⟩
      · rintro other among
        rcases List.mem_cons.mp among with rfl | among
        · exact Finset.mem_union_left _ member
        · exact Finset.mem_union_right _ (listed other among)
      · rintro other among landed ⟨version, same, key⟩
        obtain rfl : parent = version := Option.some.inj (inherits.symm.trans same)
        rcases Finset.mem_union.mp among with among | among
        · exact Finset.mem_union_left _ (lands' other among landed key)
        · exact Finset.mem_union_right _ (lands other among landed ⟨parent, inherits, key⟩)

/-- The paths of a listing are those of its keys, without the prefix. The key that is the prefix
itself has no path. -/
theorem mem_lineagePaths_iff {leading : String} {listed : List ObjectInfo} :
    path ∈ lineagePaths leading listed ↔
      path ≠ "" ∧ ∃ object ∈ listed, object.key = leading ++ path := by
  unfold lineagePaths
  have member : ∀ paths : List String, path ∈ (OrderedSet.ofList paths).toList ↔ path ∈ paths :=
    fun paths => OrderedSet.mem_ofList paths path
  simp only [member, List.mem_filter, List.mem_filterMap, Text.stripPrefix?_eq_some_iff,
    String.isEmpty_iff, Bool.not_eq_true', Bool.eq_false_iff, ne_eq]
  tauto

/-- A listing of all keys with a prefix has the keys of the bucket that start with it. -/
theorem mem_listObjects_iff {bucket leading key : String} {listed : List ObjectInfo}
    (answered : objects.listObjects bucket leading true = .ok listed) :
    (∃ object ∈ listed, object.key = key) ↔
      objects.Holds ⟨bucket, key⟩ ∧ Text.startsWith leading key = true := by
  unfold ObjectStore.listObjects at answered
  obtain ⟨-, -, answered⟩ := ObjectStore.bind_eq_ok.mp answered
  obtain ⟨keys, found, same⟩ := ObjectStore.bind_eq_ok.mp answered
  cases same
  have present : objects.buckets.get? bucket = some keys := by
    unfold ObjectStore.keysOf at found
    split at found
    · rename_i present
      cases found
      exact present
    · cases found
  rw [ObjectStore.holds_iff]
  simp only [present, Option.some.injEq, exists_eq_left', List.mem_map, List.mem_filter,
    ObjectStore.isListed, Bool.true_or, Text.startsWith]
  constructor
  · rintro ⟨object, ⟨other, ⟨member, starts⟩, rfl⟩, rfl⟩
    exact ⟨member, by simpa using starts⟩
  · rintro ⟨member, starts⟩
    exact ⟨_, ⟨key, ⟨member, by simpa using starts⟩, rfl⟩, rfl⟩

/-- What a listing of the parent version comes to. -/
def lineageIn (document : Document) (objects : ObjectStore) :
    Except StorageError (List String) :=
  match document.spec.parent? with
  | none => .ok []
  | some parent =>
    let leading := Layout.versionPrefix document.datasetName parent
    (objects.listObjects document.datasetNs leading true).map (lineagePaths leading)

/-- A listing that comes to paths was of no parent version, or the store has answered it, and the
paths are read off its answer. -/
theorem lineageIn_cases {lineage : List String}
    (listed : document.lineageIn objects = .ok lineage) :
    (document.spec.parent? = none ∧ lineage = []) ∨
      ∃ parent found, document.spec.parent? = some parent ∧
        objects.listObjects document.datasetNs
          (Layout.versionPrefix document.datasetName parent) true = .ok found ∧
        lineage = lineagePaths (Layout.versionPrefix document.datasetName parent) found := by
  unfold lineageIn at listed
  cases inherits : document.spec.parent? with
  | none =>
    rw [inherits] at listed
    cases listed
    exact .inl ⟨rfl, rfl⟩
  | some parent =>
    rw [inherits] at listed
    dsimp only at listed
    cases answered : objects.listObjects document.datasetNs
        (Layout.versionPrefix document.datasetName parent) true with
    | error error =>
      rw [answered] at listed
      cases listed
    | ok found =>
      rw [answered] at listed
      cases listed
      exact .inr ⟨parent, found, rfl, answered, rfl⟩

/-- What is listed is what is inherited: exactly the paths whose keys the store holds under the
prefix of the parent version. -/
theorem mem_lineageIn_iff {lineage : List String}
    (listed : document.lineageIn objects = .ok lineage) :
    path ∈ lineage ↔ document.Inherits objects path := by
  unfold Inherits
  rcases lineageIn_cases listed with ⟨alone, rfl⟩ | ⟨parent, found, inherits, answered, rfl⟩
  · simp [alone]
  · have starts : Text.startsWith (Layout.versionPrefix document.datasetName parent)
        (Layout.versionPrefix document.datasetName parent ++ path) = true := by
      rw [Text.startsWith, Text.stripPrefix?_eq_some_iff.mpr rfl]
      rfl
    rw [mem_lineagePaths_iff, mem_listObjects_iff answered]
    simp [inherits, starts]

/-- Only finitely many paths are inherited, since a bucket holds a list of keys. -/
theorem exists_inherited (document : Document) (objects : ObjectStore) :
    ∃ paths : List String, ∀ path, document.Inherits objects path → path ∈ paths := by
  cases inherits : document.spec.parent? with
  | none =>
    refine ⟨[], ?_⟩
    rintro path ⟨-, parent, other, -⟩
    rw [inherits] at other
    cases other
  | some parent =>
    refine ⟨((objects.buckets.get? document.datasetNs).getD .empty).toList.filterMap
      (Text.stripPrefix? (Layout.versionPrefix document.datasetName parent)), ?_⟩
    rintro path ⟨-, version, same, held⟩
    obtain rfl : parent = version := Option.some.inj (inherits.symm.trans same)
    obtain ⟨keys, found, member⟩ := ObjectStore.holds_iff.mp held
    rw [found]
    exact List.mem_filterMap.mpr ⟨_, member, Text.stripPrefix?_eq_some_iff.mpr rfl⟩

end Document

end DatasetSync
