import DatasetSync.Proofs.Controller.Round
import DatasetSync.Proofs.Store.Account

/-!
# What a producer is to hand over

A producer of copies asks which buckets there are and where sources keep their files; it never
asks for an object. The answers depend on the ground alone, which copies leave as it is. So what
a producer hands over and how it ends can be told before the run begins: this is its agenda. The
run may be stopped from within by a producer that gives up, but never leaves the agenda, whatever
the limits of its pool and in whatever order its jobs are carried out.

Every job on an agenda is listed with the ground at the time when it is handed over. There the
bucket of the version is always found.
-/

namespace DatasetSync

/-- What decides how a producer is answered, and what copies are refused for: everything that is
known of the surroundings but the keys of the buckets, the documents and the time. -/
structure Ground where
  table : BucketTable
  failingKeys : OrderedMap String String
  failingBuckets : OrderedMap String String
  hasBucket : String → Bool

/-- The ground of given surroundings. -/
def Backends.ground (backends : Backends) : Ground :=
  ⟨backends.table, backends.objects.failingKeys, backends.objects.failingBuckets,
    backends.objects.buckets.contains⟩

/-- A call that finds out about the ground, or adds a bucket to it. -/
def Call.Surveys : Call → Prop
  | .object (.bucketExists _) => True
  | .object (.makeBucket _) => True
  | .resolve _ _ => True
  | _ => False

section Ground

variable {backends backends' : Backends} {call : Call} {destination source : ObjectAddress}
  {bucket : String}

/-- The ground tells of a bucket whether it is there, as a producer learns it by a check. -/
theorem Backends.hasBucket_ground :
    backends.ground.hasBucket bucket = true ↔ backends.objects.HasBucket bucket :=
  Option.isSome_iff_ne_none

/-- Two surroundings have the same ground if they agree in its parts: in the sources that are known,
in what is refused, and in which buckets are there. What the buckets hold does not belong to it. -/
theorem Backends.ground_eq_iff : backends.ground = backends'.ground ↔
    backends.table = backends'.table ∧
      backends.objects.failingKeys = backends'.objects.failingKeys ∧
      backends.objects.failingBuckets = backends'.objects.failingBuckets ∧
      ∀ bucket, backends.objects.HasBucket bucket ↔ backends'.objects.HasBucket bucket := by
  simp only [← hasBucket_ground, ← Bool.eq_iff_iff, ← funext_iff]
  exact Ground.mk.injEq .. ▸ .rfl

/-- What a change answers depends on the change alone, whatever the store. -/
theorem ObjectStore.settle_fst (store : ObjectStore) (change : Except StorageError ObjectStore) :
    (store.settle change).1 = change.map fun _ => () := by
  cases change <;> rfl

/-- No call changes what is refused, neither among the keys nor among the buckets. -/
theorem Backends.refusals_answer (call : Call) (backends : Backends) :
    (backends.answer call).2.objects.failingKeys = backends.objects.failingKeys ∧
      (backends.answer call).2.objects.failingBuckets = backends.objects.failingBuckets := by
  cases call with
  | object made =>
    obtain ⟨buckets, same⟩ := backends.objects.answer_snd made
    change (backends.objects.answer made).2.failingKeys = _ ∧
      (backends.objects.answer made).2.failingBuckets = _
    rw [same]
    exact ⟨rfl, rfl⟩
  | document | resolve | clock => exact ⟨rfl, rfl⟩

/-- On the same ground a bucket is made alike, and the same ground is left. Whether the bucket was
there before belongs to the ground. -/
theorem Backends.makeBucket_congr (same : backends.ground = backends'.ground) (bucket : String) :
    (backends.answer (.object (.makeBucket bucket))).1 =
        (backends'.answer (.object (.makeBucket bucket))).1 ∧
      (backends.answer (.object (.makeBucket bucket))).2.ground =
        (backends'.answer (.object (.makeBucket bucket))).2.ground := by
  obtain ⟨sameTable, sameKeys, sameBuckets, sameThere⟩ := Backends.ground_eq_iff.mp same
  constructor
  · change (ObjectStore.settle _ (ObjectStore.makeBucket _ bucket)).1 =
      (ObjectStore.settle _ (ObjectStore.makeBucket _ bucket)).1
    rw [ObjectStore.settle_fst, ObjectStore.settle_fst]
    unfold ObjectStore.makeBucket ObjectStore.checkBucket
    dsimp only
    rw [sameBuckets]
    cases backends'.objects.failingBuckets.get? bucket <;> rfl
  · obtain ⟨keys, buckets⟩ := backends.refusals_answer (.object (.makeBucket bucket))
    obtain ⟨keys', buckets'⟩ := backends'.refusals_answer (.object (.makeBucket bucket))
    refine Backends.ground_eq_iff.mpr ⟨sameTable, keys.trans (sameKeys.trans keys'.symm),
      buckets.trans (sameBuckets.trans buckets'.symm), fun other => ?_⟩
    change ((backends.objects.answer (.makeBucket bucket)).2).HasBucket other ↔
      ((backends'.objects.answer (.makeBucket bucket)).2).HasBucket other
    rw [(backends.objects.account_makeBucket bucket).buckets,
      (backends'.objects.account_makeBucket bucket).buckets, ObjectStore.RefusesBucket,
      ObjectStore.RefusesBucket, sameBuckets, sameThere other]

/-- A survey of the same ground is answered alike, and leaves the same ground. There is one case for
each call that is a survey. -/
theorem Call.Surveys.answer_congr (surveys : call.Surveys)
    (same : backends.ground = backends'.ground) :
    (backends.answer call).1 = (backends'.answer call).1 ∧
      (backends.answer call).2.ground = (backends'.answer call).2.ground := by
  obtain ⟨sameTable, -, sameBuckets, sameThere⟩ := Ground.mk.inj same
  cases call with
  | document made => cases surveys
  | clock => cases surveys
  | resolve source fallback =>
    refine ⟨?_, same⟩
    change backends.table.resolve source fallback = backends'.table.resolve source fallback
    rw [sameTable]
  | object made =>
    cases made with
    | copyObject | removeObject | listObjects => cases surveys
    | bucketExists bucket =>
      refine ⟨?_, same⟩
      change ObjectStore.bucketExists _ bucket = ObjectStore.bucketExists _ bucket
      unfold ObjectStore.bucketExists ObjectStore.checkBucket
      dsimp only
      rw [sameBuckets, congrFun sameThere bucket]
    | makeBucket bucket => exact Backends.makeBucket_congr same bucket

/-- A copy leaves the ground as it is, however it ends: it makes no bucket and takes none away. -/
theorem Backends.ground_copyObject :
    (backends.answer (.object (.copyObject destination source))).2.ground = backends.ground := by
  let logged : ObjectStore :=
    { backends.objects with log := backends.objects.log ++ [.copyObject destination source] }
  have answered : (backends.answer (.object (.copyObject destination source))).2 =
      { backends with objects := (logged.settle (logged.copyObject destination source)).2 } := rfl
  rw [answered]
  cases copied : logged.copyObject destination source with
  | error error => rfl
  | ok after =>
    obtain ⟨-, keys, found, rfl⟩ := ObjectStore.copyObject_ok copied
    have there : (backends.objects.buckets.insert destination.bucket
        (keys.insert destination.key)).contains = backends.objects.buckets.contains := by
      funext other
      unfold OrderedMap.contains
      rw [OrderedMap.get?_insert]
      split
      · rename_i same
        rw [← same]
        have present : backends.objects.buckets.get? destination.bucket = some keys := found
        rw [present]
        rfl
      · rfl
    simp only [Backends.ground, ObjectStore.settle, there, logged]

/-- The answer to a copy is decided by the ground and by whether there is something to copy; of
the buckets of the ground only that of the copy matters. -/
theorem ObjectStore.copyObject_congr {store store' : ObjectStore}
    (keys : store.failingKeys = store'.failingKeys)
    (buckets : store.failingBuckets = store'.failingBuckets)
    (held : store.Holds source ↔ store'.Holds source)
    (there : store.HasBucket destination.bucket ↔ store'.HasBucket destination.bucket) :
    (store.answer (.copyObject destination source)).1 =
      (store'.answer (.copyObject destination source)).1 := by
  have heldSame : store.holds source.bucket source.key = store'.holds source.bucket source.key :=
    Bool.eq_iff_iff.mpr held
  change (settle _ (copyObject _ destination source)).1 =
    (settle _ (copyObject _ destination source)).1
  rw [settle_fst, settle_fst]
  unfold copyObject checkBucket checkKey keysOf holds
  unfold holds at heldSame
  unfold HasBucket at there
  dsimp only
  rw [keys, buckets, heldSame]
  cases store'.failingBuckets.get? source.bucket with
  | some message => rfl
  | none =>
  cases store'.failingBuckets.get? destination.bucket with
  | some message => rfl
  | none =>
  cases store'.failingKeys.get? source.key with
  | some message => rfl
  | none =>
  cases store'.failingKeys.get? destination.key with
  | some message => rfl
  | none =>
  dsimp only [bind, Except.bind]
  split
  · cases found : store.buckets.get? destination.bucket with
    | none =>
      have absent : store'.buckets.get? destination.bucket = none := by
        simpa [found] using there
      rw [absent]
    | some keys =>
      obtain ⟨keys', found'⟩ : ∃ keys', store'.buckets.get? destination.bucket = some keys' :=
        Option.ne_none_iff_exists'.mp (there.mp (by simp [found]))
      rw [found']
      rfl
  · rfl

end Ground

namespace Pool

variable {J R E α : Type}

/-- What a producer comes to that is never stopped: the jobs that it hands over, each with the
ground that it is handed over on, how it ends, and the surroundings that it leaves. -/
structure Agenda (J E : Type) where
  handed : List (J × Ground)
  result : Except E Unit
  last : Backends

namespace Agenda

/-- The jobs of an agenda, in order. -/
def jobs (agenda : Agenda J E) : List J := agenda.handed.map Prod.fst

/-- The agenda behind some jobs. -/
def after (earlier : List (J × Ground)) (agenda : Agenda J E) : Agenda J E :=
  { agenda with handed := earlier ++ agenda.handed }

/-- What is handed over later on comes after what was handed over earlier. -/
@[simp] theorem handed_after (earlier : List (J × Ground)) (agenda : Agenda J E) :
    (agenda.after earlier).handed = earlier ++ agenda.handed := rfl

/-- What was handed over earlier does not matter for the result of an agenda. -/
@[simp] theorem result_after (earlier : List (J × Ground)) (agenda : Agenda J E) :
    (agenda.after earlier).result = agenda.result := rfl

/-- What was handed over earlier does not matter for the ground that an agenda ends on. -/
@[simp] theorem last_after (earlier : List (J × Ground)) (agenda : Agenda J E) :
    (agenda.after earlier).last = agenda.last := rfl

/-- What was handed over in two parts was handed over in one, with the earlier part in front. -/
theorem after_after (earlier later : List (J × Ground)) (agenda : Agenda J E) :
    (agenda.after later).after earlier = agenda.after (earlier ++ later) := by
  simp [after]

/-- Two agendas are alike if they differ at most in what copies can change. -/
structure Alike (agenda agenda' : Agenda J E) : Prop where
  handed : agenda.handed = agenda'.handed
  result : agenda.result = agenda'.result
  last : agenda.last.ground = agenda'.last.ground

/-- An agenda is like itself. -/
theorem Alike.refl (agenda : Agenda J E) : agenda.Alike agenda := ⟨rfl, rfl, rfl⟩

/-- To be alike is transitive. -/
theorem Alike.trans {first second third : Agenda J E} (alike : first.Alike second)
    (alike' : second.Alike third) : first.Alike third :=
  ⟨alike.handed.trans alike'.handed, alike.result.trans alike'.result,
    alike.last.trans alike'.last⟩

/-- Agendas that are alike are alike after the same jobs. -/
theorem Alike.after {agenda agenda' : Agenda J E} (alike : agenda.Alike agenda')
    (earlier : List (J × Ground)) : (agenda.after earlier).Alike (agenda'.after earlier) :=
  ⟨congrArg (earlier ++ ·) alike.handed, alike.result, alike.last⟩

end Agenda

/-- The agenda of a producer among given surroundings. -/
def agenda : Producer J E → Backends → Agenda J E
  | .done result, backends => ⟨[], result, backends⟩
  | .ask (.call call) next, backends =>
    agenda (next (backends.answer call).1) (backends.answer call).2
  | .ask .isStopping next, backends => agenda (next false) backends
  | .ask (.queue job) next, backends =>
    (agenda (next true) backends).after [(job, backends.ground)]

/-- A request of a producer that asks for nothing but the ground. -/
def Production.Surveys : Production J → Prop
  | .call made => made.Surveys
  | _ => True

/-- On the same ground a producer that asks for nothing else has the same agenda. The induction is
on the producer: equal answers lead both on to the same place, and to the same ground. -/
theorem agenda_congr {producer : Producer J E} {backends backends' : Backends}
    (surveys : producer.AsksOnly Production.Surveys) (same : backends.ground = backends'.ground) :
    (agenda producer backends).Alike (agenda producer backends') := by
  induction producer generalizing backends backends' with
  | done result => exact ⟨rfl, rfl, same⟩
  | ask request next ih =>
    cases request with
    | call call =>
      obtain ⟨answer, ground⟩ := Call.Surveys.answer_congr surveys.1 same
      unfold agenda
      rw [answer]
      exact ih _ (surveys.2 _) ground
    | isStopping => exact ih false (surveys.2 false) same
    | queue job =>
      unfold agenda
      rw [same]
      exact (ih true (surveys.2 true) same).after _

/-- Calls are carried out, and the agenda goes on with what follows them, in the surroundings that
they have left. -/
theorem agenda_calling (program : Calling α) (next : α → Producer J E) (backends : Backends) :
    agenda ((Producing.calling program).bind next) backends =
      agenda (next (program.perform Backends.answer backends).1)
        (program.perform Backends.answer backends).2 := by
  induction program generalizing backends with
  | done value => rfl
  | ask call inner ih => exact ih _ _

/-- A producer that ends well on its agenda hands over such a list of jobs as it delivers. -/
theorem Delivers.agenda {whole : List J → Prop} {producer : Producer J E} {backends : Backends}
    (delivers : Delivers whole producer) (ends : (agenda producer backends).result = .ok ()) :
    whole (Pool.agenda producer backends).jobs := by
  induction producer generalizing whole backends with
  | done result =>
    cases ends
    exact delivers
  | ask request next ih =>
    cases request with
    | call call => exact ih _ (delivers _) ends
    | isStopping => exact ih false delivers ends
    | queue job => exact ih true delivers ends

/-- A pool is on the agenda of its producer: the jobs that it has accepted come first, and what is
left of the producer has the rest. -/
def State.Follows (whole : Agenda J E) (state : State J R E) (backends : Backends) : Prop :=
  ∃ handed, handed.map Prod.fst = state.floor.accepted ∧
    whole.Alike ((agenda state.producer backends).after handed)

section Follows

variable {sizing : Sizing} {before after : State J R E} {event : Event J R} {whole : Agenda J E}
  {backends backends' : Backends}

/-- A pool that begins has the whole agenda before it: nothing was accepted, and nothing was
asked. -/
theorem follows_initial (producer : Producer J E) (cancelled : Bool) (backends : Backends) :
    (State.initial producer cancelled : State J R E).Follows (agenda producer backends) backends :=
  ⟨[], rfl, .refl _⟩

/-- What others do to the surroundings of a pool but for the ground does not take it off its
agenda. -/
theorem State.Follows.congr (follows : before.Follows whole backends)
    (surveys : before.producer.AsksOnly Production.Surveys)
    (same : backends.ground = backends'.ground) : before.Follows whole backends' := by
  obtain ⟨handed, accepted, alike⟩ := follows
  exact ⟨handed, accepted, alike.trans ((agenda_congr surveys same).after handed)⟩

/-- No move takes a pool off its agenda that is not cancelled: a call of the producer is answered
by the surroundings, and every other move leaves the ground as it is. -/
theorem State.Follows.step (follows : before.Follows whole backends)
    (surveys : before.producer.AsksOnly Production.Surveys) (uncancelled : before.cancelled = false)
    (move : Step sizing before event after) (inside : event ≠ .cancelled)
    (called : ∀ call answer, event = .called call answer →
      backends.answer call = (answer, backends'))
    (uncalled : (∀ call answer, event ≠ .called call answer) →
      backends.ground = backends'.ground) : after.Follows whole backends' := by
  cases move with
  | call call next answer =>
    obtain ⟨handed, accepted, alike⟩ := follows
    refine ⟨handed, accepted, ?_⟩
    have same : agenda (.ask (.call call) next) backends = agenda (next answer) backends' := by
      rw [agenda, called call answer rfl]
    rwa [same] at alike
  | observe next =>
    dsimp only at uncancelled
    subst uncancelled
    exact follows.congr surveys (uncalled (by simp))
  | enqueue job next room =>
    obtain ⟨handed, accepted, alike⟩ := follows.congr surveys (uncalled (by simp))
    refine ⟨handed ++ [(job, backends'.ground)], ?_, ?_⟩
    · rw [List.map_append, accepted]
      rfl
    · rwa [agenda, Agenda.after_after] at alike
  | refuse => cases uncancelled
  | start | finish | deliver =>
    obtain ⟨handed, accepted, alike⟩ := follows.congr surveys (uncalled (by simp))
    exact ⟨handed, by simpa using accepted, alike⟩
  | discard => exact follows.congr surveys (uncalled (by simp))
  | cancel => exact absurd rfl inside

end Follows

end Pool

/-- Two programs in sequence are carried out one after the other, the second one with the value of
the first and in the state that it has left. -/
theorem Calling.perform_bind {σ α β : Type} {answer : (call : Call) → σ → call.Answer × σ}
    (program : Calling α) (next : α → Calling β) (state : σ) :
    Calling.perform answer (program.bind next) state =
      Calling.perform answer (next (Calling.perform answer program state).1)
        (Calling.perform answer program state).2 := by
  induction program generalizing state with
  | done value => rfl
  | ask call rest ih => exact ih _ _

namespace SyncPlan

open Pool

variable {plan : SyncPlan} {others : Backends → Backends → Prop} {history : List Moment}
  {pool : SyncPool} {tree : FileTree} {first backends backends' : Backends}

/-- The preparation of a group asks for nothing but the ground: whether the bucket is there, and
where a source lies. -/
theorem prepare_surveys (plan : SyncPlan) (source : Reference) (checked : Bool) :
    (plan.prepare source checked).AsksOnly Call.Surveys := by
  have located : (plan.locate? source).AsksOnly Call.Surveys := by
    unfold locate? locate
    cases plan.mode with
    | remove => trivial
    | copy =>
      dsimp only
      split
      · trivial
      · exact ⟨trivial, fun answer => by cases answer <;> trivial⟩
  have ensured : plan.ensureBucket.AsksOnly Call.Surveys := by
    refine ⟨trivial, fun answer => ?_⟩
    rcases answer with _ | _ | _
    · trivial
    · exact ⟨trivial, fun answer => by cases answer <;> trivial⟩
    · trivial
  refine located.bind fun location => ?_
  cases location with
  | error error => trivial
  | ok location =>
    cases checked with
    | true => trivial
    | false => exact ensured.bind fun _ => trivial

/-- Calls that ask for nothing but the ground, and what follows them, ask for nothing but the
ground. -/
theorem surveys_calling {J α β : Type} {program : Calling α} {next : α → Producing J β}
    (surveys : program.AsksOnly Call.Surveys)
    (after : ∀ value, (next value).AsksOnly Production.Surveys) :
    ((Producing.calling program).bind next).AsksOnly Production.Surveys := by
  induction program with
  | done value => exact after value
  | ask call inner ih => exact ⟨surveys.1, fun answer => ih answer (surveys.2 answer)⟩

/-- To hand over the jobs of files asks for nothing but whether the work is to stop. -/
theorem produceFiles_surveys (plan : SyncPlan) (location : Option Location) (source : Reference)
    (files : List FileRecord) :
    (plan.produceFiles location source files).AsksOnly Production.Surveys := by
  induction files with
  | nil => trivial
  | cons file files ih =>
    refine ⟨trivial, fun stopping => ?_⟩
    cases stopping with
    | true => trivial
    | false =>
      cases made : plan.jobFor? location source file with
      | none => simpa [made] using ih
      | some job =>
        have handed : ((Producing.queue job).bind fun taken =>
            if taken = true then plan.produceFiles location source files
              else .done false).AsksOnly Production.Surveys :=
          ⟨trivial, fun taken => by cases taken <;> [trivial; exact ih]⟩
        simpa [made] using handed

/-- The producer of a plan asks for nothing but the ground. So what it hands over does not depend on
the objects, and not on how far the copies have come. -/
theorem produceGroups_surveys (plan : SyncPlan) (groups : FileTree) (checked : Bool) :
    (plan.produceGroups groups checked).AsksOnly Production.Surveys := by
  induction groups generalizing checked with
  | nil => trivial
  | cons group groups ih =>
    refine ⟨trivial, fun stopping => ?_⟩
    cases stopping with
    | true => trivial
    | false =>
      refine surveys_calling (plan.prepare_surveys group.source checked) fun location => ?_
      cases location with
      | error error => trivial
      | ok location =>
        refine (plan.produceFiles_surveys location group.source group.files).bind fun going => ?_
        cases going
        · trivial
        · exact ih true

/-- The agenda of files has their jobs, on the ground that was there, and goes on with what comes
after. -/
theorem agenda_produceFiles (plan : SyncPlan) (location : Option Location) (source : Reference)
    (files : List FileRecord) (next : Bool → Producer SyncJob SyncError) (backends : Backends) :
    agenda ((plan.produceFiles location source files).bind next) backends =
      (agenda (next true) backends).after
        ((files.filterMap (plan.jobFor? location source)).map fun job =>
          (job, backends.ground)) := by
  induction files with
  | nil => rfl
  | cons file files ih =>
    cases made : plan.jobFor? location source file with
    | none =>
      rw [List.filterMap_cons_none made, ← ih]
      simp [produceFiles, made, Producing.isStopping, Program.request, agenda]
    | some job =>
      have later := congrArg (Agenda.after [(job, backends.ground)]) ih
      rw [Agenda.after_after] at later
      rw [List.filterMap_cons_some made, List.map_cons]
      refine Eq.trans ?_ later
      simp [produceFiles, made, Producing.isStopping, Producing.queue, Program.request, agenda]

/-- To find where files are copied from changes nothing, whether it is found or not. -/
theorem locate?_perform (plan : SyncPlan) (source : Reference) (backends : Backends) :
    ((plan.locate? source).perform Backends.answer backends).2 = backends := by
  unfold locate? locate
  cases plan.mode with
  | remove => rfl
  | copy =>
    dsimp only
    split
    · rfl
    · simp only [Call.resolveBucket, Program.request, Program.bind_eq, Program.ask_bind,
        Program.done_bind, Calling.perform, Backends.answer]
      cases backends.table.resolve source plan.document.ns <;> rfl

/-- When the bucket of the version was made sure of, it is there: it was found, or it was made, and
making it did not fail. -/
theorem hasBucket_ensureBucket
    (ensured : plan.ensureBucket.perform Backends.answer backends = (.ok (), backends')) :
    backends'.objects.HasBucket plan.bucket := by
  simp only [ensureBucket, Call.bucketExists, Call.makeBucket, Program.request, Program.bind_eq,
    Program.ask_bind, Program.done_bind, Calling.perform] at ensured
  have asked := backends.objects.bucketExists_cases plan.bucket
  change (_ ∧ ∃ error, (Backends.answer (.object (.bucketExists plan.bucket)) backends).1 = _) ∨
    _ ∧ ((_ ∧ (Backends.answer (.object (.bucketExists plan.bucket)) backends).1 = _) ∨
      _ ∧ (Backends.answer (.object (.bucketExists plan.bucket)) backends).1 = _) at asked
  rcases asked with ⟨-, error, same⟩ | ⟨-, ⟨there, same⟩ | ⟨-, same⟩⟩ <;> rw [same] at ensured
  · cases ensured
  · cases ensured
    exact there
  · generalize (Backends.answer (.object (.bucketExists plan.bucket)) backends).2 = checked
      at ensured
    have made := checked.objects.makeBucket_cases plan.bucket
    change (_ ∧ ∃ error, (Backends.answer (.object (.makeBucket plan.bucket)) checked).1 = _) ∨
      _ ∧ (Backends.answer (.object (.makeBucket plan.bucket)) checked).1 = _ at made
    simp only [Calling.perform] at ensured
    rcases made with ⟨-, error, same'⟩ | ⟨usable, same'⟩ <;> rw [same'] at ensured
    · cases ensured
    · cases ensured
      exact ((checked.objects.account_makeBucket plan.bucket).buckets _).mpr (.inr ⟨rfl, usable⟩)

/-- When a group has been prepared, the bucket of the version is there. It was made sure of now, or
with a group before this one. -/
theorem hasBucket_prepare {source : Reference} {checked : Bool} {location : Option Location}
    (prepared : (plan.prepare source checked).perform Backends.answer backends =
      (.ok location, backends'))
    (known : checked = true → backends.objects.HasBucket plan.bucket) :
    backends'.objects.HasBucket plan.bucket := by
  rw [prepare, Program.bind_eq, Calling.perform_bind, locate?_perform] at prepared
  cases found : ((plan.locate? source).perform Backends.answer backends).1 with
  | error error =>
    rw [found] at prepared
    cases prepared
  | ok place =>
    rw [found] at prepared
    cases checked with
    | true =>
      cases prepared
      exact known rfl
    | false =>
      have ensuring : Calling.perform Backends.answer
          (plan.ensureBucket.bind fun made => .done (made.map fun () => place)) backends =
            (.ok location, backends') := prepared
      rw [Calling.perform_bind] at ensuring
      cases ensured : plan.ensureBucket.perform Backends.answer backends with
      | mk made after =>
      rw [ensured] at ensuring
      cases made with
      | error error => cases ensuring
      | ok =>
        cases ensuring
        exact hasBucket_ensureBucket ensured

/-- The agenda of groups is that of the files of the first, once it has been prepared, and goes on
with the others. -/
theorem agenda_produceGroups (plan : SyncPlan) (group : SourceFiles) (groups : FileTree)
    (checked : Bool) (backends : Backends) :
    agenda (plan.produceGroups (group :: groups) checked) backends =
      agenda
        (match ((plan.prepare group.source checked).perform Backends.answer backends).1 with
        | .error error => .done (.error error)
        | .ok location => (plan.produceFiles location group.source group.files).bind fun more =>
            if more = true then plan.produceGroups groups true else .done (.ok ()))
        ((plan.prepare group.source checked).perform Backends.answer backends).2 :=
  agenda_calling (plan.prepare group.source checked) _ backends

/-- Every job on the agenda of a plan is handed over where the bucket of the version is there. -/
theorem hasBucket_produceGroups (groups : FileTree) (checked : Bool) (backends : Backends)
    (known : checked = true → backends.objects.HasBucket plan.bucket) :
    ∀ handed ∈ (agenda (plan.produceGroups groups checked) backends).handed,
      handed.2.hasBucket plan.bucket = true := by
  induction groups generalizing checked backends with
  | nil => simp [produceGroups, agenda]
  | cons group groups ih =>
    rw [agenda_produceGroups]
    cases prepared : (plan.prepare group.source checked).perform Backends.answer backends with
    | mk location after =>
    cases location with
    | error error => simp [agenda]
    | ok location =>
      have there := hasBucket_prepare prepared known
      dsimp only
      rw [agenda_produceFiles]
      intro handed member
      rcases List.mem_append.mp member with own | later
      · obtain ⟨job, -, rfl⟩ := List.mem_map.mp own
        exact Backends.hasBucket_ground.mpr there
      · exact ih true after (fun _ => there) handed later

end SyncPlan

end DatasetSync
