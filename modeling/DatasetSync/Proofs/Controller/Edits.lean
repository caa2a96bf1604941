import DatasetSync.Proofs.Controller.Backing
import DatasetSync.Proofs.Controller.Resting

/-!
# Edits of the version and of the dataset

A client may change under which version of which dataset the files of a document belong. The
places of all objects move with it, and with the version its label. The status stays as it is. It
knows files by source and path only, so that a file that was synced before the edit counts as
synced after it, though its object lies at the former place.

The rounds between two edits are one era of the document. At every round that leaves a ready
document alone, and in which nothing fails, each file of the status has its object at its place,
or is one that the status credited when the era began. So nothing is missing where the document
was edited before its first file was synced; and where a file was synced before, a later version
may be ready without it.

Earlier rounds may fail in any way. Nobody else writes to the object store, and clients change
nothing but the version and the dataset.
-/

namespace DatasetSync

section Looks

open Document SyncPlan

variable {policy : Policy} {document : Document} {before middle after : Backends}
  {launched : List SyncPlan} {result : Except ReconcileError Next}
  {former : QualifiedName → String → Prop}

/-- Another status and another token are not part of the declaration, so that the engine's own
writes leave a document kin to itself. -/
theorem Document.kin_withStatus (document : Document) (status : Option Status) (token : String) :
    document.Kin (DocumentStore.withToken { document with status } token) := ⟨rfl, rfl, rfl⟩

/-- Credits stay trusted when a target is written, if they are trusted in both versions: the write
may be refused, and then the old version is still stored. -/
theorem trusted_of_target {target : Status}
    (found : before.documents.get? document.key = some document)
    (living : document.isDeleting = false)
    (written : after.documents = before.documents.targeted document target)
    (still : document.Trusted after.objects former)
    (later : ∀ token, (DocumentStore.withToken { document with status := some target }
      token).Trusted after.objects former) :
    ∀ version, after.documents.get? document.key = some version →
      version.isDeleting = false ∧ version.Trusted after.objects former := by
  intro version found'
  rcases version_of_target found written with same | ⟨token, replaced⟩
  · rw [same] at found'
    cases found'
    exact ⟨living, still⟩
  · rw [replaced] at found'
    cases found'
    exact ⟨living, later token⟩

/-- A look and its run keep the credits of a document trusted, whatever fails. If something was to
be removed, no copy is launched yet, and what is removed is not recorded by the target; otherwise
only copies are made, and what they settle has its object. -/
theorem trusted_of_advances (found : before.documents.get? document.key = some document)
    (living : document.isDeleting = false) (trusted : document.Trusted before.objects former)
    (advances : policy.Advances document before middle result launched)
    (finished : RunAll launched middle after) :
    ∀ version, after.documents.get? document.key = some version →
      version.isDeleting = false ∧ version.Trusted after.objects former := by
  intro version found'
  cases advances with
  | unlisted _ same alike =>
    cases finished
    rw [same, found] at found'
    cases found'
    exact ⟨living, trusted.same (.refl _) rfl fun place => (alike.holds_iff place).mpr⟩
  | @cleared now lineage _ listed strays fewer documents =>
    cases finished
    have untouched : document.Trusted middle.objects former := by
      cases trusted with
      | untouched only => exact .untouched only
      | copied _ backed => exact absurd (backed.deleted_eq_nil listed) strays
    rcases documents with ⟨-, same⟩ | written
    · rw [same, found] at found'
      cases found'
      exact ⟨living, untouched⟩
    · exact trusted_of_target found living written untouched (fun token =>
        trusted.target (document.kin_withStatus _ _) rfl listed
          fun nothing => absurd nothing strays) version found'
  | entered listed nothing _ alike written =>
    cases finished
    have grows : ∀ place, before.objects.Holds place → middle.objects.Holds place :=
      fun place => (alike.holds_iff place).mpr
    exact trusted_of_target found living written (trusted.same (.refl _) rfl grows) (fun token =>
      trusted.target (document.kin_withStatus _ _) rfl listed fun _ => grows) version found'
  | @launched now lineage listed nothing unchanged alike same =>
    cases finished with
    | cons runs later =>
      cases later
      have single := (unchanged_iff.mp unchanged).1
      obtain ⟨-, -, keeps⟩ := runs.effect
      have grows : ∀ place, before.objects.Holds place → after.objects.Holds place :=
        fun place held => keeps rfl place ((alike.holds_iff place).mpr held)
      obtain ⟨completions, concludes, credited⟩ := credited_by_run single runs
      rw [← same] at found
      rcases version_of_copy found living concludes with kept | ⟨token, now', -, replaced⟩
      · rw [kept] at found'
        cases found'
        exact ⟨living, trusted.same (.refl _) rfl grows⟩
      · rw [replaced] at found'
        cases found'
        obtain ⟨carried, within, backed⟩ := trusted.backed listed nothing
        exact ⟨living, .copied (fun source path both => within source path both.1)
          (backed.advance (advanced_of_commit (document.kin_withStatus _ _) rfl
            (outline_recordAll _ _) listed unchanged grows backed.wanted credited))⟩

/-- A round keeps the credits of a document trusted. A document that is being deleted without a
status gets none. -/
theorem trusted_of_looks (found : before.documents.get? document.key = some document)
    (fresh : document.isDeleting = true → document.status = none)
    (trusted : document.Trusted before.objects former)
    (looks : policy.Looks document before middle result launched)
    (finished : RunAll launched middle after) :
    ∀ version, after.documents.get? document.key = some version →
      (version.isDeleting = true → version.status = none) ∧
        version.Trusted after.objects former := by
  intro version found'
  cases looks with
  | nameless _ same =>
    cases finished
    rw [same, found] at found'
    cases found'
    exact ⟨fresh, same ▸ trusted⟩
  | deleting deleting rests =>
    cases finished
    rcases rests with gone | same
    · rw [gone] at found'
      cases found'
    · rw [same, found] at found'
      cases found'
      exact ⟨fresh, .untouched fun source path credited =>
        absurd credited (not_credits_of_fresh (fresh deleting))⟩
  | marked _ living missing performs =>
    cases finished
    obtain ⟨-, objects⟩ := performs.mark
    have grows : ∀ place, before.objects.Holds place → middle.objects.Holds place :=
      fun place held => objects ▸ held
    rcases version_of_mark found living missing performs with same | ⟨token, replaced⟩
    · rw [same] at found'
      cases found'
      exact ⟨fresh, trusted.same (.refl _) rfl grows⟩
    · obtain ⟨-, labels, finalizers, rfl⟩ := marked?_eq_some missing
      rw [replaced] at found'
      cases found'
      exact ⟨fresh, trusted.same ⟨rfl, rfl, rfl⟩ rfl grows⟩
  | advanced living marked advances =>
    obtain ⟨living', trusted'⟩ :=
      trusted_of_advances found living trusted advances finished version found'
    exact ⟨fun deleting => by simp [living'] at deleting, trusted'⟩

end Looks

/-- The document as a client edits it: its files belong to another version, or to another
dataset. -/
def Document.moved (document : Document) (dataset : Reference) (version : String) : Document :=
  { document with spec := { document.spec with dataset, version } }

/-- A client moves the stored version of a document. -/
def Backends.move (key : QualifiedName) (dataset : Reference) (version : String)
    (before : Backends) : Backends :=
  match before.documents.get? key with
  | none => before
  | some stored =>
    { before with documents := (before.documents.update (stored.moved dataset version)).2 }

/-- An era of a document: it has begun with a stored version without a status, or with one that a
client has moved, and went on with rounds of the controller. -/
inductive Era (policy : Policy) (key : QualifiedName) : Document → Backends → Prop
  | begin {first : Document} {backends : Backends} (sound : backends.documents.Sound)
      (found : backends.documents.get? key = some first) (fresh : first.status = none) :
      Era policy key first backends
  | round {first : Document} {before after : Backends} (era : Era policy key first before)
      (round : Round policy key before after) : Era policy key first after
  | edit {former first : Document} {before : Backends} {dataset : Reference} {version : String}
      (era : Era policy key former before)
      (found : (before.move key dataset version).documents.get? key = some first) :
      Era policy key first (before.move key dataset version)

/-- A client that moves a document leaves its status alone, and whether it is being deleted. -/
theorem Backends.status_of_move {key : QualifiedName} {dataset : Reference} {version : String}
    {before : Backends} {stored edited : Document} (sound : before.documents.Sound)
    (found : before.documents.get? key = some stored)
    (found' : (before.move key dataset version).documents.get? key = some edited) :
    edited.isDeleting = stored.isDeleting ∧ edited.status = stored.status := by
  obtain rfl := sound.keyed key stored found
  unfold move at found'
  rw [found] at found'
  dsimp only at found'
  rcases before.documents.update_cases (stored.moved dataset version) with
    ⟨-, -, same | same⟩ | ⟨former, present, -, -, -, -, versions⟩
  · rw [same, found] at found'
    cases found'
    exact ⟨rfl, rfl⟩
  · rw [same, DocumentStore.get?_issue, found] at found'
    cases found'
    exact ⟨rfl, rfl⟩
  · have own : (stored.moved dataset version).key = stored.key := rfl
    obtain rfl := Option.some.inj (found.symm.trans present)
    rw [versions, if_pos own] at found'
    split at found'
    · cases found'
    · cases found'
      exact ⟨rfl, rfl⟩

/-- In an era all credits are trusted. The induction is on the era: rounds keep them so, and at its
beginning every credit is one of the first version. -/
theorem Era.trusted {policy : Policy} {key : QualifiedName} {first : Document}
    {backends : Backends} (era : Era policy key first backends) :
    backends.documents.Sound ∧ ∀ document, backends.documents.get? key = some document →
      (document.isDeleting = true → document.status = none) ∧
        document.Trusted backends.objects first.Credits := by
  induction era with
  | begin sound found fresh =>
    refine ⟨sound, fun document found' => ?_⟩
    obtain rfl := Option.some.inj (found.symm.trans found')
    exact ⟨fun _ => fresh, .untouched fun _ _ credited => credited⟩
  | @round first before after era round ih =>
    obtain ⟨sound, trusted⟩ := ih
    refine ⟨round.sound sound, fun version found' => ?_⟩
    cases round with
    | gone absent same =>
      rw [same, absent] at found'
      cases found'
    | @looked document _ _ _ found carried finished =>
      obtain rfl := sound.keyed key document found
      obtain ⟨fresh, credits⟩ := trusted document found
      exact trusted_of_looks found fresh credits (looks_of_carries found carried) finished version
        found'
  | @edit former first before dataset version era found ih =>
    obtain ⟨sound, trusted⟩ := ih
    have kept : (before.move key dataset version).documents.Sound := by
      unfold Backends.move
      split
      · exact sound
      · exact sound.succession (DocumentStore.succession_update _ _)
    refine ⟨kept, fun document found' => ?_⟩
    obtain rfl := Option.some.inj (found.symm.trans found')
    refine ⟨fun deleting => ?_, .untouched fun _ _ credited => credited⟩
    cases present : before.documents.get? key with
    | none =>
      simp [Backends.move, present] at found
    | some stored =>
      obtain ⟨sameMark, same⟩ := Backends.status_of_move sound present found
      rw [same]
      exact (trusted stored present).1 (sameMark ▸ deleting)

/-- When a ready document is left alone, each of its files was credited when the era began, or has
its object at its place. -/
theorem Era.carried_or_held {policy : Policy} {key : QualifiedName} {first document : Document}
    {before after : Backends} (era : Era policy key first before)
    (resting : RestsReady policy key document before after) {source : QualifiedName}
    {file : FileRecord} (records : document.files.Records document.ns source file) :
    first.Credits source file.path ∨ after.objects.Holds (document.place file.path) := by
  obtain ⟨smooth, found, rests, ready⟩ := resting
  obtain ⟨sound, trusted⟩ := era.trusted
  obtain ⟨-, credits⟩ := (era.round smooth.round).trusted.2 document rests
  obtain @⟨stored, launched, middle, found', carried, finished⟩ := smooth
  obtain rfl := Option.some.inj (found'.symm.trans found)
  obtain rfl := sound.keyed key stored found
  have settled := settled_of_resting sound found (trusted stored found).1
    (looks_of_carries found carried) finished rests ready
  exact credits.carried_or_held settled ⟨file, records, rfl⟩

/-- When a ready document is left alone, all of its files have their objects at their places
exactly if those have that were credited when the era began: before the first round, or when a
client has moved the document last. -/
theorem synced_at_rest_iff {policy : Policy} {key : QualifiedName} {first document : Document}
    {before after : Backends} (era : Era policy key first before)
    (resting : RestsReady policy key document before after) :
    (∀ file ∈ document.files.allFiles, after.objects.Holds (document.place file.path)) ↔
      ∀ source file, document.files.Records document.ns source file →
        first.Credits source file.path → after.objects.Holds (document.place file.path) := by
  constructor
  · rintro held source file ⟨group, member, -, inGroup⟩ -
    exact held file (List.mem_flatMap.mpr ⟨group, member, inGroup⟩)
  · intro carried file listed
    obtain ⟨group, member, inGroup⟩ := List.mem_flatMap.mp listed
    have records : document.files.Records document.ns (group.source.qualified document.ns) file :=
      ⟨group, member, rfl, inGroup⟩
    rcases era.carried_or_held resting records with credited | held
    · exact carried _ file records credited
    · exact held

/-- Rounds that are driven one after the other. -/
def Policy.driveRounds (policy : Policy) (key : QualifiedName) : Nat → Backends → Backends
  | 0, before => before
  | count + 1, before => policy.driveRounds key count (policy.driveRound key before)

/-- An era goes on with driven rounds, however many: what a round writes is no edit by a client. -/
theorem Era.rounds {policy : Policy} {key : QualifiedName} {first : Document} {before : Backends}
    (era : Era policy key first before) (count : Nat) :
    Era policy key first (policy.driveRounds key count before) := by
  induction count generalizing before with
  | zero => exact era
  | succ count ih => exact ih (era.round (round_driveRound policy key before))

/-- A document that declares one file of one source, and of which nothing is recorded. -/
def freshDocument : Document :=
  { metadata := { Metadata.empty with name := some "ds-v1", ns := some "team-a" }
    spec := { dataset := { apiGroup := none, kind := "Dataset", name := "ds", ns := none }
              version := "v1", inheritedFrom := none, released := false
              fileGroups := [{
                source := { apiGroup := none, kind := Reference.datasourceKind, name := "x"
                            ns := none }
                paths := ["a.txt"] }] }
    status := none }

/-- The document is stored, and its file is held by its source. -/
def freshBackends : Backends :=
  { objects := ObjectStore.empty.putObject "raw" "a.txt"
    documents := (DocumentStore.empty.insert freshDocument).2
    table := { BucketTable.empty with buckets := OrderedMap.empty.insert "x" "raw" }
    now := "2024-05-01T00:00:00+00:00" }

/-- The policy of the examples. -/
def patient : Policy := { sizing := .standard, requeueAfter := 3 }

/-- A client makes the document another version of its dataset. -/
def Backends.renamed (before : Backends) : Backends :=
  before.move freshDocument.key freshDocument.spec.dataset "v2"

/-- An era begins with the stored document, which has no status yet, in a store whose tokens are in
order. -/
theorem era_freshDocument : Era patient freshDocument.key
    (DocumentStore.withToken freshDocument "1") freshBackends :=
  .begin (DocumentStore.sound_empty.succession
    (DocumentStore.succession_write DocumentStore.sound_empty.keyed "" (.insert freshDocument)))
    rfl rfl

/-- A file that is first synced after the version was edited is at its place, under the new
version. -/
theorem synced_after_edit : ∃ first document before after,
    Era patient freshDocument.key first before ∧
      RestsReady patient freshDocument.key document before after ∧
      document.spec.version = "v2" ∧ document.files.allFiles ≠ [] ∧
      ∀ file ∈ document.files.allFiles, after.objects.Holds (document.place file.path) := by
  have check : patient.restsReady freshDocument.key
      (patient.driveRounds freshDocument.key 3 freshBackends.renamed) (fun document _ =>
        document.spec.version = "v2" && document.files.allFiles ≠ []) = true := by decide +kernel
  obtain ⟨document, after, resting, shown⟩ := restsReady_of_drive check
  simp only [Bool.and_eq_true, decide_eq_true_eq] at shown
  have era := (@Era.edit patient freshDocument.key _ _ _ _ _ era_freshDocument
    (rfl : freshBackends.renamed.documents.get? freshDocument.key = some _)).rounds 3
  refine ⟨_, document, _, after, era, resting, shown.1, shown.2,
    (synced_at_rest_iff era resting).mpr fun source file _ credited => ?_⟩
  exact absurd credited (Document.not_credits_of_fresh rfl)

/-- The document is synced, its version is edited, and what the edit has changed is written. -/
def editedBackends : Backends :=
  patient.driveRounds freshDocument.key 2
    (patient.driveRounds freshDocument.key 3 freshBackends).renamed

/-- A file that was synced before the version was edited is not at its place, though the version
is ready. -/
theorem missing_after_edit : ∃ first document before after,
    Era patient freshDocument.key first before ∧
      RestsReady patient freshDocument.key document before after ∧
      ¬ ∀ file ∈ document.files.allFiles, after.objects.Holds (document.place file.path) := by
  have present : ((patient.driveRounds freshDocument.key 3 freshBackends).renamed.documents.get?
      freshDocument.key).isSome = true := by decide +kernel
  obtain ⟨first, found⟩ := Option.isSome_iff_exists.mp present
  have era : Era patient freshDocument.key first editedBackends :=
    ((era_freshDocument.rounds 3).edit found).rounds 2
  have check : patient.restsReady freshDocument.key editedBackends (fun document after =>
      document.files.allFiles.any fun file =>
        !after.objects.holds document.datasetNs (document.place file.path).key) = true := by
    decide +kernel
  obtain ⟨document, after, resting, lost⟩ := restsReady_of_drive check
  refine ⟨first, document, _, after, era, resting, fun held => ?_⟩
  obtain ⟨file, listed, unheld⟩ := List.any_eq_true.mp lost
  have there : after.objects.holds document.datasetNs (document.place file.path).key = true :=
    held file listed
  rw [there] at unheld
  cases unheld

end DatasetSync
