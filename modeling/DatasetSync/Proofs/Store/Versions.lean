import Mathlib
import DatasetSync.Store.Document

/-!
# Versions in a document store

Every write of a document store takes the next token, and a document that is put into the
store bears it. Hence a token names one version: no two stored versions share it, whether
they lie under different keys or are stored at different times, and a version that was
replaced or removed never comes back.

What one operation can do to the stored versions is said once, in `Succession`: nothing, one
fresh version under its own key, or one version taken away. Everything else is derived from
it. Tokens are natural numbers written in decimal; they are not bounded here.
-/

namespace DatasetSync

/-- What clients other than the engine do to a document store. -/
inductive ClientWrite where
  | insert (document : Document)
  | bump (key : QualifiedName)
  | markDeleted (key : QualifiedName)
  | remove (key : QualifiedName)
  | update (document : Document)
  | patchStatus (key : QualifiedName) (token : String) (status : Status)
deriving DecidableEq, Repr

namespace DocumentStore

/-- The store after a client has written at a point in time. -/
def write (store : DocumentStore) (now : Timestamp) : ClientWrite → DocumentStore
  | .insert document => (store.insert document).2
  | .bump key => store.bump key
  | .markDeleted key => (store.markDeleted now key).2
  | .remove key => (store.remove key).2
  | .update document => (store.update document).2
  | .patchStatus key token status => (store.patchStatus key token status).2

/-- Taking a token leaves all documents as they are; only the next token is another one. -/
@[simp] theorem get?_issue (store : DocumentStore) (key : QualifiedName) :
    store.issue.get? key = store.get? key := rfl

/-- A document that is put under a key is found there, and under the other keys is what was
there. -/
@[simp] theorem get?_put (store : DocumentStore) (key : QualifiedName) (document : Document)
    (other : QualifiedName) :
    (store.put key document).get? other = if key = other then some document else store.get? other :=
  OrderedMap.get?_insert store.documents key document other

/-- Nothing is found under a key that was dropped, and under the other keys is what was there. -/
@[simp] theorem get?_drop (store : DocumentStore) (key other : QualifiedName) :
    (store.drop key).get? other = if key = other then none else store.get? other :=
  OrderedMap.get?_erase store.documents key other

/-- Every document lies under its own key. -/
def WellKeyed (store : DocumentStore) : Prop :=
  ∀ key document, store.get? key = some document → document.key = key

/-- What one operation can do to the versions of a store. -/
inductive Succession (before after : DocumentStore) : Prop where
  /-- No version changes, though a token may have been taken. -/
  | unchanged (issued : before.issued ≤ after.issued)
      (versions : ∀ key, after.get? key = before.get? key)
  /-- One version with the next token is put under its own key. -/
  | stored (version : Document) (issued : after.issued = before.issued + 1)
      (token : version.versionToken = some before.nextToken)
      (versions : ∀ key,
        after.get? key = if version.key = key then some version else before.get? key)
  /-- One version is taken away. -/
  | dropped (key : QualifiedName) (issued : before.issued ≤ after.issued)
      (versions : ∀ other, after.get? other = if key = other then none else before.get? other)

/-- A token was taken and nothing else happened. This is what a refused write may do. -/
theorem succession_issue (store : DocumentStore) : Succession store store.issue :=
  .unchanged (Nat.le_succ _) fun _ => rfl

/-- A version with the next token was put under its own key, which is how every write that succeeds
begins. -/
theorem succession_put (store : DocumentStore) (version : Document)
    (token : version.versionToken = some store.nextToken) :
    Succession store (store.issue.put version.key version) :=
  .stored version rfl token fun key => by rw [get?_put, get?_issue]

/-- Neither status nor token matters for whether a document is released. -/
@[simp] theorem isReleased_withToken (document : Document) (status : Option Status)
    (token : String) :
    isReleased (withToken { document with status } token) = isReleased document := rfl

/-- How an update ends: it fails and changes no version, or the stored version bears the
presented token and is replaced, or taken away if nothing keeps it any more. -/
theorem update_cases (store : DocumentStore) (document : Document) :
    (∃ error, (store.update document).1 = .error error ∧
      ((store.update document).2 = store ∨ (store.update document).2 = store.issue)) ∨
    ∃ stored, store.get? document.key = some stored ∧
      stored.versionToken = document.versionToken ∧ document.metadata.ns ≠ none ∧
      (store.update document).1 =
        .ok (withToken { document with status := stored.status } store.nextToken) ∧
      (store.update document).2.issued = store.issued + 1 ∧
      ∀ key, (store.update document).2.get? key =
        if document.key = key then
          if isReleased document then none
          else some (withToken { document with status := stored.status } store.nextToken)
        else store.get? key := by
  unfold update
  cases namespaced : document.metadata.ns with
  | none => exact .inl ⟨_, rfl, .inl rfl⟩
  | some ns =>
    dsimp only
    cases found : store.get? document.key with
    | none => exact .inl ⟨_, rfl, .inr rfl⟩
    | some stored =>
      dsimp only
      by_cases current : stored.versionToken = document.versionToken
      · rw [if_neg (not_not_intro current), isReleased_withToken]
        refine .inr ⟨stored, rfl, current, by simp, rfl, ?_, fun key => ?_⟩
        · dsimp only
          split <;> rfl
        · by_cases released : isReleased document = true
          · rw [if_pos released, if_pos released]
            exact get?_drop store.issue document.key key
          · rw [if_neg released, if_neg released]
            exact get?_put store.issue document.key _ key
      · rw [if_pos current]
        exact .inl ⟨_, rfl, .inr rfl⟩

/-- An update of the stored version succeeds. The new version keeps the stored status, whatever
status was sent, and bears the next token. -/
theorem update_of_current {store : DocumentStore} {document stored : Document}
    (named : document.metadata.ns ≠ none) (found : store.get? document.key = some stored)
    (current : stored.versionToken = document.versionToken) :
    (store.update document).1 =
      .ok (withToken { document with status := stored.status } store.nextToken) := by
  obtain ⟨ns, namespaced⟩ := Option.ne_none_iff_exists'.mp named
  unfold update
  rw [namespaced]
  simp only [found, current]
  rw [if_neg (not_not_intro rfl)]

/-- How a patch ends: it fails and changes no version, or the stored version bears the
presented token and has its status replaced. -/
theorem patchStatus_cases (store : DocumentStore) (key : QualifiedName) (token : String)
    (status : Status) :
    (∃ error, (store.patchStatus key token status).1 = .error error ∧
      (store.patchStatus key token status).2 = store.issue) ∨
    ∃ stored, store.get? key = some stored ∧ stored.versionToken = some token ∧
      (store.patchStatus key token status).1 = .ok () ∧
      (store.patchStatus key token status).2.issued = store.issued + 1 ∧
      ∀ other, (store.patchStatus key token status).2.get? other =
        if key = other then some (withToken { stored with status := some status } store.nextToken)
        else store.get? other := by
  unfold patchStatus
  cases found : store.get? key with
  | none => exact .inl ⟨_, rfl, rfl⟩
  | some stored =>
    dsimp only
    by_cases current : stored.versionToken = some token
    · rw [if_neg (not_not_intro current)]
      exact .inr ⟨stored, rfl, current, rfl, rfl, fun other => get?_put store.issue key _ other⟩
    · rw [if_pos current]
      exact .inl ⟨_, rfl, rfl⟩

/-- The token of the stored version lets a new status through: it is stored with the next token,
over the metadata and the specification that were there, and no other document changes. -/
theorem get?_patchStatus_of_current {store : DocumentStore} {key : QualifiedName} {token : String}
    {latest : Document} (found : store.get? key = some latest)
    (current : latest.versionToken = some token) (status : Status) (other : QualifiedName) :
    (store.patchStatus key token status).2.get? other =
      if key = other then some (withToken { latest with status := some status } store.nextToken)
      else store.get? other := by
  rcases store.patchStatus_cases key token status with ⟨error, refused, -⟩ |
    ⟨latest', found', -, -, -, versions⟩
  · simp [patchStatus, found, current] at refused
  · obtain rfl := Option.some.inj (found.symm.trans found')
    exact versions other

/-- An update is one succession: it puts one new version under its key, it drops a released
document, or it is refused. -/
theorem succession_update (store : DocumentStore) (document : Document) :
    Succession store (store.update document).2 := by
  rcases update_cases store document with ⟨-, -, same | same⟩ |
    ⟨stored, -, -, -, -, issued, versions⟩
  · rw [same]
    exact .unchanged (Nat.le_refl _) fun _ => rfl
  · rw [same]
    exact succession_issue store
  · by_cases released : isReleased document = true
    · simp only [if_pos released] at versions
      exact .dropped document.key (by omega) versions
    · simp only [if_neg released] at versions
      exact .stored (withToken { document with status := stored.status } store.nextToken) issued
        rfl versions

/-- A patch is one succession: it puts one new version under its key, or it is refused. -/
theorem succession_patchStatus {store : DocumentStore} (keyed : store.WellKeyed)
    (key : QualifiedName) (token : String) (status : Status) :
    Succession store (store.patchStatus key token status).2 := by
  rcases patchStatus_cases store key token status with ⟨-, -, same⟩ |
    ⟨stored, found, -, -, issued, versions⟩
  · rw [same]
    exact succession_issue store
  · have own : stored.key = key := keyed key stored found
    subst own
    exact .stored (withToken { stored with status := some status } store.nextToken) issued rfl
      versions

/-- What a client writes is one succession, of whatever kind the write is. -/
theorem succession_write {store : DocumentStore} (keyed : store.WellKeyed) (now : Timestamp)
    (write : ClientWrite) : Succession store (store.write now write) := by
  cases write with
  | insert document => exact succession_put store (withToken document store.nextToken) rfl
  | bump key =>
    simp only [DocumentStore.write, bump]
    cases found : store.get? key with
    | none => exact succession_issue store
    | some stored =>
      have own : stored.key = key := keyed key stored found
      subst own
      exact succession_put store (withToken stored store.nextToken) rfl
  | markDeleted key =>
    simp only [DocumentStore.write, markDeleted]
    cases found : store.get? key with
    | none => exact succession_issue store
    | some stored =>
      have own : stored.key = key := keyed key stored found
      subst own
      let deleted : Document :=
        { stored with metadata := { stored.metadata with deletionTimestamp := some now } }
      exact succession_put store (withToken deleted store.nextToken) rfl
  | remove key => exact .dropped key (Nat.le_refl _) fun other => get?_drop store key other
  | update document => exact succession_update store document
  | patchStatus key token status => exact succession_patchStatus keyed key token status

/-- What the engine calls is one succession. Reading changes nothing, and its writes are those of a
client. -/
theorem succession_answer {store : DocumentStore} (keyed : store.WellKeyed)
    (call : DocumentCall) : Succession store (store.answer call).2 := by
  cases call with
  | get key => exact .unchanged (Nat.le_refl _) fun _ => rfl
  | update document => exact succession_update store document
  | patchStatus key token status => exact succession_patchStatus keyed key token status

/-- The versions of a store lie under their keys, bear tokens that were given out, and bear
different tokens. -/
structure Sound (store : DocumentStore) : Prop where
  keyed : store.WellKeyed
  numbered : ∀ key version, store.get? key = some version →
    ∃ number, number ≤ store.issued ∧ version.versionToken = some (toString number)
  distinct : ∀ key other version version',
    store.get? key = some version → store.get? other = some version' →
    version.versionToken = version'.versionToken → key = other

/-- A store without documents is sound: there is no version whose token could be out of order. -/
theorem sound_empty : Sound empty where
  keyed := by intro key document found; simp [get?, empty] at found
  numbered := by intro key version found; simp [get?, empty] at found
  distinct := by intro key other version version' found; simp [get?, empty] at found

/-- Different numbers are different tokens, as decimal numerals can be read back. -/
theorem token_injective {first second : Nat} (same : toString first = toString second) :
    first = second :=
  Nat.repr_injective same

/-- The next token is borne by no stored version: every stored token was issued before, and numbers
do not come back. -/
theorem Sound.next_unused {store : DocumentStore} (sound : store.Sound) {key : QualifiedName}
    {version : Document} (found : store.get? key = some version) :
    version.versionToken ≠ some store.nextToken := by
  intro next
  obtain ⟨number, bound, token⟩ := sound.numbered key version found
  have same : toString number = toString (store.issued + 1) :=
    Option.some.inj (token.symm.trans next)
  have equal : number = store.issued + 1 := token_injective same
  omega

/-- Every operation keeps a store sound. A fresh version bears a token that no other version
bears, because tokens have only been given out up to the number issued. -/
theorem Sound.succession {before after : DocumentStore} (sound : before.Sound)
    (succession : Succession before after) : after.Sound := by
  cases succession with
  | unchanged issued versions =>
    refine ⟨?_, ?_, ?_⟩
    · intro key version found
      exact sound.keyed key version (versions key ▸ found)
    · intro key version found
      obtain ⟨number, bound, token⟩ := sound.numbered key version (versions key ▸ found)
      exact ⟨number, Nat.le_trans bound issued, token⟩
    · intro key other version version' found found'
      exact sound.distinct key other version version' (versions key ▸ found)
        (versions other ▸ found')
  | stored fresh issued token versions =>
    refine ⟨?_, ?_, ?_⟩
    · intro key version found
      rw [versions] at found
      split at found
      · rename_i own
        cases found
        exact own
      · exact sound.keyed key version found
    · intro key version found
      rw [versions] at found
      split at found
      · cases found
        exact ⟨before.issued + 1, by omega, token⟩
      · obtain ⟨number, bound, numbered⟩ := sound.numbered key version found
        exact ⟨number, by omega, numbered⟩
    · intro key other version version' found found' same
      rw [versions] at found found'
      split at found <;> split at found'
      · rename_i own own'
        exact own.symm.trans own'
      · cases found
        exact absurd (same ▸ token) (sound.next_unused found')
      · cases found'
        exact absurd (same.trans token) (sound.next_unused found)
      · exact sound.distinct key other version version' found found' same
  | dropped gone issued versions =>
    have kept : ∀ key version, after.get? key = some version → before.get? key = some version := by
      intro key version found
      rw [versions] at found
      split at found
      · cases found
      · exact found
    refine ⟨?_, ?_, ?_⟩
    · intro key version found
      exact sound.keyed key version (kept key version found)
    · intro key version found
      obtain ⟨number, bound, token⟩ := sound.numbered key version (kept key version found)
      exact ⟨number, Nat.le_trans bound issued, token⟩
    · intro key other version version' found found'
      exact sound.distinct key other version version' (kept key version found)
        (kept other version' found')

/-- A later state of a store: what it holds under a token that was given out before, it held
before. -/
structure Later (before after : DocumentStore) : Prop where
  issued : before.issued ≤ after.issued
  held : ∀ key version number, after.get? key = some version →
    version.versionToken = some (toString number) → number ≤ before.issued →
    before.get? key = some version

/-- Every state is as late as itself. -/
theorem Later.refl (store : DocumentStore) : Later store store :=
  ⟨Nat.le_refl _, fun _ _ _ found _ _ => found⟩

/-- Being later is transitive. -/
theorem Later.trans {first second third : DocumentStore} (sooner : Later first second)
    (later : Later second third) : Later first third where
  issued := Nat.le_trans sooner.issued later.issued
  held key version number found token old :=
    sooner.held key version number
      (later.held key version number found token (Nat.le_trans old sooner.issued)) token old

/-- Every operation leads to a later state: it brings back no version, and the tokens that it issues
were not issued before. -/
theorem Succession.later {before after : DocumentStore} (succession : Succession before after) :
    Later before after := by
  cases succession with
  | unchanged issued versions =>
    exact ⟨issued, fun key _ _ found _ _ => versions key ▸ found⟩
  | stored fresh issued token versions =>
    refine ⟨by omega, ?_⟩
    intro key version number found numbered old
    rw [versions] at found
    split at found
    · cases found
      have same : toString number = toString (before.issued + 1) :=
        Option.some.inj (numbered.symm.trans token)
      have equal : number = before.issued + 1 := token_injective same
      omega
    · exact found
  | dropped gone issued versions =>
    refine ⟨issued, ?_⟩
    intro key version number found _ _
    rw [versions] at found
    split at found
    · cases found
    · exact found

/-- A token names one version for all time: two versions that bear it lay under one key and
are the same version. -/
theorem Later.same_version {before after : DocumentStore} (later : Later before after)
    (sound : before.Sound) {key other : QualifiedName} {version version' : Document}
    (found : before.get? key = some version) (found' : after.get? other = some version')
    (token : version.versionToken = version'.versionToken) :
    key = other ∧ version = version' := by
  obtain ⟨number, bound, numbered⟩ := sound.numbered key version found
  have held : before.get? other = some version' :=
    later.held other version' number found' (token ▸ numbered) bound
  have same : key = other := sound.distinct key other version version' found held token
  subst same
  exact ⟨rfl, Option.some.inj (found.symm.trans held)⟩

end DocumentStore

end DatasetSync
