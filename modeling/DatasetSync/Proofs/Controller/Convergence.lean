import DatasetSync.Proofs.Controller.Descent

/-!
# Convergence

However the rounds of a document go, and whatever the object store refuses, from every round on
there is a later one that leaves the version of the document alone, or finds the document gone,
as long as two things do not happen. The version must not be nested in its parent: each copy of
a file would be inherited as another file. And no declared path may double one of the parent
version under the name of the inherited source: the file is listed twice then, so that every
comparison finds it new and writes the status again.

The second one happens to documents that nothing else is wrong with, and then no round ever
settles.
-/

namespace DatasetSync

variable {policy : Policy} {document : Document} {before after : Backends}
  {states : Nat → Backends}

/-- Rounds follow each other, and nobody acts in between. -/
def Rounds (policy : Policy) (key : QualifiedName) (states : Nat → Backends) : Prop :=
  ∀ n, Round policy key (states n) (states (n + 1))

/-- From every state rounds can follow each other for ever: every round can be carried out. -/
theorem exists_rounds (policy : Policy) (key : QualifiedName) (start : Backends) :
    ∃ states, states 0 = start ∧ Rounds policy key states := by
  choose next round using exists_round policy key
  exact ⟨fun n => n.rec start fun _ state => next state, rfl, fun n => round _⟩

/-- In all rounds the stored versions have the name and the declaration of the first one. Nobody but
the engine writes, and the engine changes neither. -/
theorem Rounds.kin (found : (states 0).documents.get? document.key = some document)
    (rounds : Rounds policy document.key states) (n : Nat) :
    ∀ version, (states n).documents.get? document.key = some version → document.Kin version := by
  induction n with
  | zero =>
    intro version found'
    obtain rfl := Option.some.inj (found.symm.trans found')
    exact .refl document
  | succ n ih =>
    intro version found'
    rcases (rounds n).cases fun former present => (ih former present).key with
      (gone | same) | ⟨former, own, present, later, present', turn⟩
    · rw [gone] at found'
      cases found'
    · exact ih version (same ▸ found')
    · rw [own, found'] at present'
      obtain rfl := Option.some.inj present'
      exact (ih former present).trans turn.kin

/-- Unless a version is nested in its parent, from every round on there is one that settles, or one
in which a declared path doubles one of the parent version. The turns that lie ahead are
well-founded, so that they are not taken for ever; a round that is no turn settles. -/
theorem rounds_settle (found : (states 0).documents.get? document.key = some document)
    (separate : ¬ document.Nested) (rounds : Rounds policy document.key states) (start : Nat) :
    ∃ n, start ≤ n ∧ (Settled document.key (states n) (states (n + 1)) ∨
      document.Clashes (states n).objects) := by
  have kin := rounds.kin found
  have ends : ∀ state, Acc Document.Approaches state →
      ∀ n, (states n).documents.get? document.key = some state.1 → (states n).objects = state.2 →
        ∃ m, n ≤ m ∧ (Settled document.key (states m) (states (m + 1)) ∨
          document.Clashes (states m).objects) := by
    intro state acc
    induction acc with
    | intro state _ ih =>
      intro n present objects
      rcases (rounds n).cases fun former present => (kin n former present).key with
        rests | ⟨former, own, present', later, found', turn⟩
      · exact ⟨n, le_rfl, .inl rests.settled⟩
      by_cases clash : document.Clashes (states n).objects
      · exact ⟨n, le_rfl, .inr clash⟩
      obtain rfl := Option.some.inj (present'.symm.trans present)
      rw [own] at found'
      rw [objects] at turn clash
      obtain ⟨m, bound, either⟩ := ih (later, (states (n + 1)).objects)
        ⟨turn, fun doubled => clash ((kin n state.1 present).clashes_iff.mp doubled)⟩ (n + 1)
        found' rfl
      exact ⟨m, by omega, either⟩
  cases present : (states start).documents.get? document.key with
  | none =>
    rcases (rounds start).cases (by simp [present]) with rests | ⟨former, -, present', -⟩
    · exact ⟨start, le_rfl, .inl rests.settled⟩
    · rw [present] at present'
      cases present'
  | some version =>
    have separate' : ¬ version.Nested := fun nested =>
      separate ((kin start version present).nested_iff.mp nested)
    exact ends _ (Document.acc_approaches separate' (states start).objects) start present rfl

/-- A document that is labelled and guarded lists a file twice, has nothing to remove, and can
be compared with its parent version. -/
structure Document.Stuck (document : Document) (backends : Backends) : Prop where
  found : backends.documents.get? document.key = some document
  sound : backends.documents.Sound
  named : document.metadata.ns ≠ none
  living : document.isDeleting = false
  marked : document.isMarked = true
  listed : ∃ lineage, document.lineageIn backends.objects = .ok lineage ∧
    document.Doubles lineage ∧ ∀ now, (document.reconcile now lineage).deleted = []

/-- The only way that a round over a stuck document can take is to write its status. A comparison
that lists a file twice always finds something new, so that no copy is launched. -/
theorem Document.Stuck.entered (stuck : document.Stuck before)
    (round : Round policy document.key before after) :
    ∃ now lineage, document.lineageIn before.objects = .ok lineage ∧ document.Doubles lineage ∧
      before.objects.Alike after.objects ∧ after.documents =
        before.documents.targeted document (document.reconcile now lineage).target := by
  obtain ⟨found, -, named, living, marked, lineage, listed, doubles, nothing⟩ := stuck
  cases round with
  | gone absent =>
    rw [absent] at found
    cases found
  | @looked stored result launched middle found' carried finished =>
    obtain rfl := Option.some.inj (found'.symm.trans found)
    have new : ∀ now, (stored.reconcile now lineage).statusChanged ≠ false :=
      fun now old => (Document.unchanged_iff.mp old).1 doubles
    cases looks_of_carries found carried with
    | nameless missing => exact absurd missing named
    | deleting deleting => simp [living] at deleting
    | marked _ _ missing =>
      rw [Document.marked?_eq_none_iff.mpr marked] at missing
      cases missing
    | advanced _ _ advances =>
      cases advances with
      | unlisted failed =>
        rw [listed] at failed
        cases failed
      | @cleared now _ _ listed' strays =>
        obtain rfl := Except.ok.inj (listed.symm.trans listed')
        exact absurd (nothing now) strays
      | @launched now _ listed' _ unchanged =>
        obtain rfl := Except.ok.inj (listed.symm.trans listed')
        exact absurd unchanged (new now)
      | @entered now _ _ listed' _ _ alike written =>
        obtain rfl := Except.ok.inj (listed.symm.trans listed')
        cases finished
        exact ⟨now, lineage, listed, doubles, alike, written⟩

/-- A round over a stuck document gives it another token, and leaves it stuck: the status that it
writes makes no difference to what is listed twice. -/
theorem Document.Stuck.round (stuck : document.Stuck before)
    (round : Round policy document.key before after) :
    ¬ Settled document.key before after ∧
      ∃ version : Document, version.key = document.key ∧ version.Stuck after := by
  obtain ⟨now, lineage, listed, doubles, alike, written⟩ := stuck.entered round
  obtain ⟨number, -, numbered⟩ := stuck.sound.numbered _ _ stuck.found
  have replaced := @DocumentStore.get?_targeted _ _ (document.reconcile now lineage).target _
    stuck.found numbered
  rw [← written] at replaced
  constructor
  · rintro (gone | same)
    · rw [gone] at replaced
      cases replaced
    · rw [replaced, stuck.found] at same
      exact stuck.sound.next_unused stuck.found (Option.some.inj same).symm
  have kept : (DocumentStore.withToken { document with
      status := some (document.reconcile now lineage).target }
        before.documents.nextToken).Stuck after := {
    found := replaced
    sound := by
      rw [written, DocumentStore.targeted, numbered]
      exact stuck.sound.succession
        (DocumentStore.succession_patchStatus stuck.sound.keyed _ _ _)
    named := stuck.named
    living := stuck.living
    marked := stuck.marked
    listed := by
      obtain ⟨log, same⟩ := alike
      refine ⟨lineage, ?_, doubles, fun now =>
        Document.aligned_target.deleted_eq_nil fun path held => held⟩
      rw [same]
      exact listed }
  refine ⟨_, ?_, kept⟩
  rfl

/-- A stuck document never settles, however many rounds are made: each round leaves it stuck, and no
round leaves it as it was. -/
theorem Document.Stuck.rounds (stuck : document.Stuck (states 0))
    (rounds : Rounds policy document.key states) (n : Nat) :
    ¬ Settled document.key (states n) (states (n + 1)) := by
  have stays : ∀ n, ∃ version : Document, version.key = document.key ∧
      version.Stuck (states n) := by
    intro n
    induction n with
    | zero => exact ⟨document, rfl, stuck⟩
    | succ n ih =>
      obtain ⟨version, own, stuck⟩ := ih
      rw [← own]
      exact (stuck.round (own ▸ rounds n)).2
  obtain ⟨version, own, stuck⟩ := stays n
  rw [← own]
  exact (stuck.round (own ▸ rounds n)).1

/-- A version of a dataset that starts from version v1 and declares one file of a source. -/
def heir (source : String) : Document :=
  { metadata := { Metadata.empty with
      name := some "ds-v2", ns := some "team-a"
      labels := some (((.empty : Labels).insert Document.versionLabel "v2").insert
        Document.ownerLabel "ds")
      finalizers := some [Document.finalizer] }
    spec := { dataset := { apiGroup := none, kind := "Dataset", name := "ds", ns := none }
              version := "v2", inheritedFrom := some "v1", released := false
              fileGroups := [{
                source := { apiGroup := none, kind := Reference.datasourceKind, name := source
                            ns := none }
                paths := ["a.txt"] }] }
    status := none }

/-- The stored version of the heir. -/
def heirVersion (source : String) : Document := DocumentStore.withToken (heir source) "1"

/-- The heir is stored, and its parent version and its source hold the file. -/
def heirBackends (source : String) : Backends :=
  { objects :=
      (ObjectStore.empty.putObject "team-a" "dataset/ds/v1/a.txt").putObject "raw" "a.txt"
    documents := (DocumentStore.empty.insert (heir source)).2
    table := { BucketTable.empty with buckets := OrderedMap.empty.insert source "raw" }
    now := "2024-05-01T00:00:00+00:00" }

/-- A document is never at rest: its source is named like the inherited one, and its file is held
by the parent version. -/
theorem heir_never_settles :
    ∃ states, states 0 = heirBackends "inherited-from-v1" ∧
      Rounds default (heir "inherited-from-v1").key states ∧
      ∀ n, ¬ Settled (heir "inherited-from-v1").key (states n) (states (n + 1)) := by
  obtain ⟨states, start, rounds⟩ :=
    exists_rounds default (heir "inherited-from-v1").key (heirBackends "inherited-from-v1")
  refine ⟨states, start, rounds, ?_⟩
  have stuck : (heirVersion "inherited-from-v1").Stuck (heirBackends "inherited-from-v1") := {
    found := rfl
    sound := DocumentStore.sound_empty.succession
      (DocumentStore.succession_write DocumentStore.sound_empty.keyed "" (.insert _))
    named := by decide
    living := rfl
    marked := by decide
    listed := ⟨["a.txt"], by decide, ⟨rfl, "a.txt", List.mem_cons_self, _, List.mem_cons_self,
      by decide, List.mem_cons_self⟩, fun now => rfl⟩ }
  exact (start.symm ▸ stuck : (heirVersion "inherited-from-v1").Stuck (states 0)).rounds rounds

/-- The same document settles if its source has a name of its own. -/
theorem heir_settles :
    ∃ states, states 0 = heirBackends "raw" ∧ Rounds default (heir "raw").key states ∧
      ∃ n, Settled (heir "raw").key (states n) (states (n + 1)) := by
  obtain ⟨states, start, rounds⟩ := exists_rounds default (heir "raw").key (heirBackends "raw")
  refine ⟨states, start, rounds, ?_⟩
  have found : (states 0).documents.get? (heirVersion "raw").key = some (heirVersion "raw") := by
    rw [start]
    rfl
  have separate : ¬ (heirVersion "raw").Nested := by
    rintro ⟨parent, rest, inherits, -, nested⟩
    obtain rfl := Option.some.inj inherits
    have letters : ("v2" : String).toList = ("v1" ++ "/" ++ rest).toList :=
      congrArg String.toList nested
    simp at letters
  obtain ⟨n, -, settled | ⟨path, -, group, member, own, -⟩⟩ := rounds_settle found separate rounds 0
  · exact ⟨n, settled⟩
  · obtain rfl := List.mem_singleton.mp member
    exact absurd own (by decide)

end DatasetSync
