import Mathlib.Logic.Relation
import DatasetSync.Sync.Turn

/-!
# Runs that are driven

The moves of a run can be made in many orders, and `SyncPlan.drive` makes them in one of them.
Whatever is known of all executions of a run is therefore known of the driven one, as long as
nobody cancels it. That the driver comes to an end needs no further reason: it counts the jobs
that are left on the floor, and each round of work takes one off.

A run may also be driven turn by turn, with the turns of others in between. Every turn is made of
moves of the run, whatever state of the surroundings the others have left to it, and so is the
rest of the way from any turn to the end.
-/

namespace DatasetSync

namespace Pool

variable {J R : Type} {sizing : Sizing} {floor : Floor J R}

/-- There is always a worker: a number that is set to zero counts as one. -/
theorem Sizing.crew_pos (sizing : Sizing) : 0 < sizing.crew :=
  Nat.lt_of_lt_of_le Nat.one_pos (Nat.le_max_right _ _)

/-- How many jobs wait or run. -/
def Floor.load (floor : Floor J R) : Nat := floor.queue.length + floor.running.length

/-- The jobs that start leave the queue and nothing else. The load of the floor stays, since a job
counts the same at work as in the queue. -/
theorem Floor.load_startUpTo (count : Nat) (floor : Floor J R) :
    (floor.startUpTo sizing count).load = floor.load ∧
      (floor.startUpTo sizing count).awaiting = floor.awaiting ∧
      (floor.startUpTo sizing count).queue.length ≤ floor.queue.length := by
  induction count generalizing floor with
  | zero => exact ⟨rfl, rfl, Nat.le_refl _⟩
  | succ count ih =>
    rw [Floor.startUpTo]
    split
    · obtain ⟨load, awaiting, shorter⟩ := ih floor.start
      rw [load, awaiting]
      cases queue : floor.queue with
      | nil => simpa [Floor.start, queue] using shorter
      | cons job later =>
        simp only [Floor.start, queue, List.length_cons] at shorter ⊢
        refine ⟨?_, trivial, Nat.le_succ_of_le shorter⟩
        simp only [Floor.load, queue, List.length_append, List.length_cons, List.length_nil]
        omega
    · exact ⟨rfl, rfl, Nat.le_refl _⟩

/-- Jobs that start never need more workers than there are, however many may start. -/
theorem Floor.crew_startUpTo (count : Nat) (floor : Floor J R)
    (manned : floor.running.length ≤ sizing.crew) :
    (floor.startUpTo sizing count).running.length ≤ sizing.crew := by
  induction count generalizing floor with
  | zero => exact manned
  | succ count ih =>
    rw [Floor.startUpTo]
    split
    · rename_i free
      have idle : floor.running.length < sizing.crew :=
        of_decide_eq_true (Bool.and_eq_true_iff.mp free).1
      refine ih floor.start ?_
      unfold Floor.start
      split
      · exact manned
      · simpa using Nat.succ_le_of_lt idle
    · exact manned

/-- When as many jobs have started as can, the queue is empty or no worker is idle. -/
theorem Floor.startUpTo_full (count : Nat) (floor : Floor J R)
    (enough : floor.queue.length ≤ count) :
    (floor.startUpTo sizing count).queue = [] ∨
      (floor.startUpTo sizing count).hasIdle sizing = false := by
  induction count generalizing floor with
  | zero => exact .inl (List.length_eq_zero_iff.mp (Nat.le_zero.mp enough))
  | succ count ih =>
    rw [Floor.startUpTo]
    split
    · refine ih floor.start ?_
      cases queue : floor.queue with
      | nil => simp [Floor.start, queue]
      | cons job later =>
        rw [queue, List.length_cons] at enough
        simpa [Floor.start, queue] using Nat.le_of_succ_le_succ enough
    · rename_i stuck
      simp only [Bool.and_eq_true, Bool.not_eq_true', not_and, Bool.not_eq_false,
        List.isEmpty_iff] at stuck
      cases idle : floor.hasIdle sizing with
      | true => exact .inl (stuck idle)
      | false => exact .inr rfl

/-- A floor between two moves of the driver: what has ended was handed over, and the limits are
kept. -/
structure Floor.Tidy (sizing : Sizing) (floor : Floor J R) : Prop where
  handed : floor.awaiting = []
  queued : floor.queue.length ≤ sizing.room
  manned : floor.running.length ≤ sizing.crew

/-- Starting jobs keeps a floor tidy: nothing awaits its delivery, and neither the queue nor the
crew is overfull. -/
theorem Floor.Tidy.startAll (tidy : floor.Tidy sizing) : (floor.startAll sizing).Tidy sizing := by
  obtain ⟨-, awaiting, shorter⟩ := @Floor.load_startUpTo J R sizing floor.queue.length floor
  exact ⟨awaiting.trans tidy.handed, Nat.le_trans shorter tidy.queued,
    Floor.crew_startUpTo _ floor tidy.manned⟩

/-- A job that is queued where there is room leaves the floor tidy: the queue grows by one, up to its
limit at most. -/
theorem Floor.Tidy.enqueue (tidy : floor.Tidy sizing) (room : floor.hasRoom sizing = true)
    (job : J) : (floor.enqueue job).Tidy sizing := by
  have free : floor.queue.length < sizing.room := of_decide_eq_true room
  exact ⟨tidy.handed, by simpa [Floor.enqueue] using Nat.succ_le_of_lt free, tidy.manned⟩

/-- When jobs have started and some still wait, all workers are busy. -/
theorem Floor.busy_startAll (waiting : (floor.startAll sizing).queue ≠ []) :
    sizing.crew ≤ (floor.startAll sizing).running.length := by
  rcases Floor.startUpTo_full floor.queue.length floor (Nat.le_refl _) with none | full
  · exact absurd none waiting
  · have busy : ¬ (floor.startAll sizing).running.length < sizing.crew :=
      of_decide_eq_false full
    omega

/-- If a worker is idle and a job waits, starting jobs shortens the queue. This is what makes room
in a queue that is full. -/
theorem Floor.shorter_startAll (idle : floor.running.length < sizing.crew)
    (waiting : floor.queue ≠ []) :
    (floor.startAll sizing).queue.length < floor.queue.length := by
  obtain ⟨job, later, queue⟩ := List.exists_cons_of_ne_nil waiting
  have free : (floor.hasIdle sizing && !floor.queue.isEmpty) = true := by
    simp [Floor.hasIdle, idle, queue]
  obtain ⟨-, -, shorter⟩ := @Floor.load_startUpTo J R sizing later.length floor.start
  have started : floor.start.queue = later := by simp [Floor.start, queue]
  rw [Floor.startAll, queue, List.length_cons, Floor.startUpTo, if_pos free]
  rw [started] at shorter
  omega

/-- The floor after the oldest running job has ended and was handed over: the others run on, and the
queue is as it was. -/
theorem Floor.finish_deliver (tidy : floor.Tidy sizing) {job : J} {later : List J}
    (running : floor.running = job :: later) (result : R) :
    ((floor.finish 0 result).deliver).Tidy sizing ∧
      (floor.finish 0 result).awaiting = [(job, result)] ∧
      ((floor.finish 0 result).deliver).queue = floor.queue ∧
      ((floor.finish 0 result).deliver).running = later := by
  have manned := tidy.manned
  rw [running, List.length_cons] at manned
  have ended : floor.finish 0 result =
      { floor with running := later, awaiting := [(job, result)] } := by
    simp [Floor.finish, running, tidy.handed]
  rw [ended]
  exact ⟨⟨rfl, tidy.queued, by simpa [Floor.deliver] using Nat.le_of_succ_le manned⟩, rfl, rfl, rfl⟩

end Pool

namespace SyncPlan

open Pool Relation

variable {σ : Type} {surroundings : Surroundings σ} {plan : SyncPlan}
  {producer : Producer SyncJob SyncError}
  {session : Session (σ × FileTree) SyncJob (Except StorageError Unit)}

/-- The moves that lead from one state of a run to another one. -/
abbrev Drives (surroundings : Surroundings σ) : ActiveRun × σ → ActiveRun × σ → Prop :=
  ReflTransGen (ActiveRun.Step surroundings.answer)

/-- A session that nobody has cancelled, with a tidy floor. -/
structure Tended (plan : SyncPlan)
    (session : Session (σ × FileTree) SyncJob (Except StorageError Unit)) : Prop where
  uncancelled : session.cancelled = false
  tidy : session.floor.Tidy plan.sizing

/-- While nobody cancels, to look whether somebody has changes nothing. -/
theorem observe_eq (never : ∀ state, surroundings.isCancelled state = false) :
    session.observe (plan.host surroundings) = session := by
  have same : (session.cancelled || (plan.host surroundings).isCancelled session.surroundings) =
      session.cancelled := by
    rw [show (plan.host surroundings).isCancelled session.surroundings =
      surroundings.isCancelled session.surroundings.1 from rfl, never, Bool.or_false]
  rw [Session.observe, same]

/-- While nobody has cancelled, all idle workers take the jobs that they can, and nothing else of
the session changes. -/
theorem fill_eq (tended : plan.Tended session) :
    session.fill plan.sizing =
      { session with floor := session.floor.startAll plan.sizing } := by
  rw [Session.fill, if_neg (by simp [tended.uncancelled])]

/-- When idle workers have taken jobs, the floor is still tidy, and the run is still not
cancelled. -/
theorem Tended.fill (tended : plan.Tended session) : plan.Tended (session.fill plan.sizing) := by
  rw [fill_eq tended]
  exact ⟨tended.uncancelled, tended.tidy.startAll⟩

/-- Idle workers take jobs by moves of the run, one move for each job that starts. -/
theorem drives_fill (tended : plan.Tended session)
    (going : ∀ floor, (⟨producer, floor, false⟩ : SyncPool).isStopping = false) :
    Drives surroundings (plan.driven producer session)
      (plan.driven producer (session.fill plan.sizing)) := by
  obtain ⟨floor, cancelled, state, tree⟩ := session
  obtain rfl : cancelled = false := tended.uncancelled
  have started : ∀ count floor, Drives surroundings
      (⟨plan, tree, .working ⟨producer, floor, false⟩⟩, state)
      (⟨plan, tree, .working ⟨producer, floor.startUpTo plan.sizing count, false⟩⟩, state) := by
    intro count
    induction count with
    | zero => exact fun floor => .refl
    | succ count ih =>
      intro floor
      rw [Floor.startUpTo]
      split
      · rename_i free
        obtain ⟨idle, waiting⟩ := Bool.and_eq_true_iff.mp free
        refine .head (.work (.start (going floor) idle ?_) (.internal state tree)) (ih floor.start)
        rintro none
        simp [show floor.queue = [] from none] at waiting
      · exact .refl
  exact started _ floor

/-- When the oldest running job has ended and was handed over, the others run on and the queue is as
it was. If none runs, nothing changes. -/
theorem Tended.finishOldest (never : ∀ state, surroundings.isCancelled state = false)
    (tended : plan.Tended session) :
    plan.Tended (session.finishOldest (plan.host surroundings)) ∧
      (session.finishOldest (plan.host surroundings)).floor.queue = session.floor.queue ∧
      (session.finishOldest (plan.host surroundings)).floor.running =
        session.floor.running.tail := by
  unfold Session.finishOldest
  cases running : session.floor.running with
  | nil => exact ⟨tended, rfl, running⟩
  | cons job later =>
    dsimp only
    rw [observe_eq never]
    obtain ⟨tidy, -, queue, left⟩ := Floor.finish_deliver tended.tidy running
      (Calling.perform surroundings.answer job.perform session.surroundings.1).1
    exact ⟨⟨tended.uncancelled, tidy⟩, queue, left⟩

/-- The oldest running job ends and is handed over by moves of the run: one in which it ends and one
in which its completion is handed over. -/
theorem drives_finishOldest (never : ∀ state, surroundings.isCancelled state = false)
    (tended : plan.Tended session) :
    Drives surroundings (plan.driven producer session)
      (plan.driven producer (session.finishOldest (plan.host surroundings))) := by
  obtain ⟨floor, cancelled, state, tree⟩ := session
  obtain rfl : cancelled = false := tended.uncancelled
  unfold Session.finishOldest
  cases running : floor.running with
  | nil => exact .refl
  | cons job later =>
    dsimp only
    rw [observe_eq never]
    let performed := Calling.perform surroundings.answer job.perform state
    obtain ⟨-, awaiting, -⟩ := Floor.finish_deliver tended.tidy running performed.1
    have ended : ActiveRun.Step surroundings.answer
        (⟨plan, tree, .working ⟨producer, floor, false⟩⟩, state)
        (⟨plan, tree, .working ⟨producer, floor.finish 0 performed.1, false⟩⟩, performed.2) :=
      .work (.finish 0 job performed.1 (by simp [running])) (.executed tree rfl)
    exact .head ended (.single (.work (.deliver job performed.1 [] awaiting)
      (.delivered job performed.1 performed.2 tree)))

/-- When the queue is full, all workers are busy, so that the next completion leaves one of them
idle, and it takes a job from the queue. -/
theorem hasRoom_fill (never : ∀ state, surroundings.isCancelled state = false)
    (tended : plan.Tended session)
    (full : ¬ (session.fill plan.sizing).floor.hasRoom plan.sizing) :
    (((session.fill plan.sizing).finishOldest (plan.host surroundings)).fill
      plan.sizing).floor.hasRoom plan.sizing := by
  have filled := tended.fill
  obtain ⟨finished, queue, running⟩ := Tended.finishOldest never filled
  have long : plan.sizing.room ≤ (session.fill plan.sizing).floor.queue.length :=
    Nat.le_of_not_lt fun room => full (decide_eq_true room)
  have waiting : (session.fill plan.sizing).floor.queue ≠ [] := by
    intro none
    rw [none, List.length_nil, Sizing.room] at long
    omega
  have busy : 0 < (session.fill plan.sizing).floor.running.length := by
    rw [fill_eq tended] at waiting ⊢
    exact Nat.lt_of_lt_of_le plan.sizing.crew_pos (Floor.busy_startAll waiting)
  have idle : ((session.fill plan.sizing).finishOldest
      (plan.host surroundings)).floor.running.length < plan.sizing.crew := by
    have manned := filled.tidy.manned
    rw [running, List.length_tail]
    omega
  have shorter := Floor.shorter_startAll idle (queue ▸ waiting)
  rw [queue] at shorter
  rw [fill_eq finished]
  exact decide_eq_true (Nat.lt_of_lt_of_le shorter filled.tidy.queued)

/-- Room is made in a full queue by moves of the run. The oldest running job ends, and an idle
worker takes a job from the queue. -/
theorem drives_makeRoom (never : ∀ state, surroundings.isCancelled state = false)
    (tended : plan.Tended session)
    (going : ∀ floor, (⟨producer, floor, false⟩ : SyncPool).isStopping = false) :
    Drives surroundings (plan.driven producer session)
        (plan.driven producer (session.makeRoom (plan.host surroundings) plan.sizing)) ∧
      plan.Tended (session.makeRoom (plan.host surroundings) plan.sizing) ∧
      (session.makeRoom (plan.host surroundings) plan.sizing).floor.hasRoom plan.sizing := by
  unfold Session.makeRoom
  rw [tended.uncancelled, Bool.false_or]
  split
  · rename_i room
    exact ⟨.refl, tended, room⟩
  have filled := tended.fill
  have filling : Drives surroundings _ _ := drives_fill tended going
  dsimp only
  split
  · rename_i room
    exact ⟨filling, filled, room⟩
  rename_i full
  obtain ⟨finished, -⟩ := Tended.finishOldest never filled
  exact ⟨filling.trans ((drives_finishOldest never filled).trans (drives_fill finished going)),
    finished.fill, hasRoom_fill never tended full⟩

/-- A round of work takes one job off the floor: idle workers take jobs, and the oldest running one
ends. -/
theorem load_finishOldest (never : ∀ state, surroundings.isCancelled state = false)
    (tended : plan.Tended session) :
    ((session.fill plan.sizing).finishOldest (plan.host surroundings)).floor.load =
      session.floor.load - 1 := by
  obtain ⟨-, queue, running⟩ := Tended.finishOldest never tended.fill
  have load : (session.fill plan.sizing).floor.load = session.floor.load := by
    rw [fill_eq tended]
    exact (Floor.load_startUpTo _ _).1
  have busy : (session.fill plan.sizing).floor.queue = [] ∨
      0 < (session.fill plan.sizing).floor.running.length := by
    rw [fill_eq tended]
    by_cases waiting : (session.floor.startAll plan.sizing).queue = []
    · exact .inl waiting
    · exact .inr (Nat.lt_of_lt_of_le plan.sizing.crew_pos (Floor.busy_startAll waiting))
  rw [← load, Floor.load, Floor.load, queue, running, List.length_tail]
  rcases busy with none | some
  · rw [none, List.length_nil]
    omega
  · omega

/-- Rounds of work are moves of the run. As many rounds as there are jobs on the floor leave none;
the induction is on their number. -/
theorem drives_work (never : ∀ state, surroundings.isCancelled state = false)
    (going : ∀ floor, (⟨producer, floor, false⟩ : SyncPool).isStopping = false) (count : Nat)
    (tended : plan.Tended session) (bound : session.floor.load ≤ count) :
    Drives surroundings (plan.driven producer session)
        (plan.driven producer (session.work (plan.host surroundings) plan.sizing count)) ∧
      plan.Tended (session.work (plan.host surroundings) plan.sizing count) ∧
      (session.work (plan.host surroundings) plan.sizing count).floor.load = 0 := by
  induction count generalizing session with
  | zero => exact ⟨.refl, tended, Nat.le_zero.mp bound⟩
  | succ count ih =>
    obtain ⟨finished, -⟩ := Tended.finishOldest never tended.fill
    have fewer : ((session.fill plan.sizing).finishOldest
        (plan.host surroundings)).floor.load ≤ count := by
      rw [load_finishOldest never tended]
      omega
    obtain ⟨rest, tended', none⟩ := ih finished fewer
    exact ⟨(drives_fill tended going).trans ((drives_finishOldest never tended.fill).trans rest),
      tended', none⟩

/-- All jobs come to their ends by moves of the run, and nothing is left on the floor. Nothing waits
any more when the last worker is done, so that nothing is dropped. -/
theorem drives_complete (never : ∀ state, surroundings.isCancelled state = false)
    (tended : plan.Tended session)
    (going : ∀ floor, (⟨producer, floor, false⟩ : SyncPool).isStopping = false) :
    Drives surroundings (plan.driven producer session)
        (plan.driven producer (session.complete (plan.host surroundings) plan.sizing)) ∧
      (session.complete (plan.host surroundings) plan.sizing).cancelled = false ∧
      (session.complete (plan.host surroundings) plan.sizing).floor.isQuiet = true := by
  obtain ⟨moves, tended', none⟩ :=
    drives_work never going session.floor.load tended (Nat.le_refl _)
  obtain ⟨noQueue, noRunning⟩ := Nat.add_eq_zero_iff.mp none
  have queue := List.length_eq_zero_iff.mp noQueue
  have running := List.length_eq_zero_iff.mp noRunning
  have same : session.complete (plan.host surroundings) plan.sizing =
      session.work (plan.host surroundings) plan.sizing session.floor.load := by
    unfold Session.complete
    dsimp only
    rw [Floor.discard, ← Floor.load, queue, List.append_nil, ← queue]
  rw [same]
  refine ⟨moves, tended'.uncancelled, ?_⟩
  simp [Floor.isQuiet, queue, running, tended'.tidy.handed]

/-- Running jobs come to their ends by moves of the run, one after the other. The count bounds how
many there are. -/
theorem drives_runOut (never : ∀ state, surroundings.isCancelled state = false) (count : Nat)
    (tended : plan.Tended session) (bound : session.floor.running.length ≤ count) :
    Drives surroundings (plan.driven producer session)
        (plan.driven producer (session.runOut (plan.host surroundings) count)) ∧
      plan.Tended (session.runOut (plan.host surroundings) count) ∧
      (session.runOut (plan.host surroundings) count).floor.running = [] := by
  induction count generalizing session with
  | zero => exact ⟨.refl, tended, List.length_eq_zero_iff.mp (Nat.le_zero.mp bound)⟩
  | succ count ih =>
    obtain ⟨finished, -, running⟩ := Tended.finishOldest never tended
    have fewer : (session.finishOldest (plan.host surroundings)).floor.running.length ≤ count := by
      rw [running, List.length_tail]
      omega
    obtain ⟨rest, tended', none⟩ := ih finished fewer
    exact ⟨(drives_finishOldest never tended).trans rest, tended', none⟩

/-- The running jobs come to their ends by moves of the run, and the queue is dropped. -/
theorem drives_abandon (never : ∀ state, surroundings.isCancelled state = false)
    (tended : plan.Tended session)
    (stopping : ∀ floor, (⟨producer, floor, false⟩ : SyncPool).isStopping = true) :
    Drives surroundings (plan.driven producer session)
        (plan.driven producer (session.abandon (plan.host surroundings))) ∧
      (session.abandon (plan.host surroundings)).cancelled = false ∧
      (session.abandon (plan.host surroundings)).floor.isQuiet = true := by
  obtain ⟨moves, tended', none⟩ := drives_runOut never _ tended (Nat.le_refl _)
  refine ⟨?_, tended'.uncancelled, ?_⟩
  · refine moves.tail (.work (.discard ?_) (.internal _ _))
    rw [tended'.uncancelled]
    exact stopping _
  · simp [Session.abandon, Floor.isQuiet, Floor.discard, none, tended'.tidy.handed]

/-- A pool that is driven comes to its end by moves of the run, and with the result that the
driver reports. -/
theorem drives_pool (never : ∀ state, surroundings.isCancelled state = false)
    (producer : Producer SyncJob SyncError)
    (session : Session (σ × FileTree) SyncJob (Except StorageError Unit))
    (tended : plan.Tended session) :
    Drives surroundings (plan.driven producer session)
        (plan.driven (.done (Pool.drive (plan.host surroundings) plan.sizing producer session).1)
          (Pool.drive (plan.host surroundings) plan.sizing producer session).2) ∧
      (Pool.drive (plan.host surroundings) plan.sizing producer session).2.cancelled = false ∧
      (Pool.drive (plan.host surroundings) plan.sizing producer session).2.floor.isQuiet = true := by
  induction producer generalizing session with
  | done result =>
    cases result with
    | error error => exact drives_abandon never tended fun floor => rfl
    | ok => exact drives_complete never tended fun floor => rfl
  | ask request next ih =>
    cases request with
    | call call =>
      rw [Pool.drive]
      dsimp only
      rw [observe_eq never]
      obtain ⟨rest, ended⟩ := ih (surroundings.answer call session.surroundings.1).1
        { session with surroundings :=
            ((surroundings.answer call session.surroundings.1).2, session.surroundings.2) }
        ⟨tended.uncancelled, tended.tidy⟩
      exact ⟨.head (.work (.call call next _) (.called call _ _)) rest, ended⟩
    | isStopping =>
      rw [Pool.drive]
      obtain ⟨rest, ended⟩ := ih session.cancelled session tended
      exact ⟨.head (.work (.observe next) (.internal _ _)) rest, ended⟩
    | queue job =>
      rw [Pool.drive]
      have going : ∀ floor, (⟨.ask (.queue job) next, floor, false⟩ : SyncPool).isStopping = false :=
        fun floor => rfl
      obtain ⟨moving, ready, room⟩ := drives_makeRoom never tended going
      revert moving ready room
      generalize session.makeRoom (plan.host surroundings) plan.sizing = made
      intro moving ready room
      obtain ⟨floor, cancelled, state, tree⟩ := made
      obtain rfl : cancelled = false := ready.uncancelled
      obtain ⟨rest, ended⟩ := ih true ⟨floor.enqueue job, false, state, tree⟩
        ⟨rfl, ready.tidy.enqueue room job⟩
      exact ⟨moving.trans (.head (.work (.enqueue job next room) (.internal _ _)) rest), ended⟩

/-- The calls that are left of a run are made by moves of the run, one move for each of them. -/
theorem drives_calls (tree : FileTree) (rest : Calling (Except SyncError RunOutcome)) (state : σ) :
    Drives surroundings (⟨plan, tree, .concluding rest⟩, state)
      (⟨plan, tree, .concluding (.done (Calling.perform surroundings.answer rest state).1)⟩,
        (Calling.perform surroundings.answer rest state).2) := by
  induction rest generalizing state with
  | done outcome => exact .refl
  | ask call next ih => exact .head (.call call next tree state) (ih _ _)

/-- The producer of a run goes on by moves of the run, as far as it can without waiting for room.
It leaves the floor as tidy as it was, because it queues a job only where there is room. -/
theorem drives_advance (never : ∀ state, surroundings.isCancelled state = false)
    (producer : Producer SyncJob SyncError)
    (session : Session (σ × FileTree) SyncJob (Except StorageError Unit))
    (tended : plan.Tended session) :
    Drives surroundings (plan.driven producer session)
        (plan.driven (Pool.advance (plan.host surroundings) plan.sizing producer session).1
          (Pool.advance (plan.host surroundings) plan.sizing producer session).2) ∧
      plan.Tended (Pool.advance (plan.host surroundings) plan.sizing producer session).2 := by
  induction producer generalizing session with
  | done result => exact ⟨.refl, tended⟩
  | ask request next ih =>
    cases request with
    | call call =>
      rw [Pool.advance]
      dsimp only
      rw [observe_eq never]
      obtain ⟨rest, tended'⟩ := ih (surroundings.answer call session.surroundings.1).1
        { session with surroundings :=
            ((surroundings.answer call session.surroundings.1).2, session.surroundings.2) }
        ⟨tended.uncancelled, tended.tidy⟩
      exact ⟨.head (.work (.call call next _) (.called call _ _)) rest, tended'⟩
    | isStopping =>
      rw [Pool.advance]
      obtain ⟨rest, tended'⟩ := ih session.cancelled session tended
      exact ⟨.head (.work (.observe next) (.internal _ _)) rest, tended'⟩
    | queue job =>
      obtain ⟨floor, cancelled, state, tree⟩ := session
      obtain rfl : cancelled = false := tended.uncancelled
      rw [Pool.advance, if_neg Bool.false_ne_true]
      split
      · rename_i room
        obtain ⟨rest, tended'⟩ := ih true ⟨floor.enqueue job, false, state, tree⟩
          ⟨rfl, tended.tidy.enqueue room job⟩
        exact ⟨.head (.work (.enqueue job next room) (.internal _ _)) rest, tended'⟩
      · exact ⟨.refl, tended⟩

end SyncPlan

namespace ActiveRun

open Pool Relation SyncPlan

variable {σ : Type} {surroundings : Surroundings σ} {run : ActiveRun} {pool : SyncPool}

/-- Nobody has cancelled the run, and as long as its pool is at work its floor is tidy. -/
def Tended (run : ActiveRun) : Prop :=
  ∀ pool, run.stage = .working pool → pool.cancelled = false ∧ pool.floor.Tidy run.plan.sizing

/-- A run that starts without having been cancelled is tended: there is nothing on its floor. -/
theorem tended_start (plan : SyncPlan) : (start plan false).Tended := by
  intro pool stage
  cases stage
  exact ⟨rfl, rfl, Nat.zero_le _, Nat.zero_le _⟩

/-- A floor on which nothing is left to move is tidy, whatever the sizes are. -/
theorem tidy_of_isQuiet {J R : Type} {sizing : Sizing} {floor : Floor J R}
    (quiet : floor.isQuiet = true) : floor.Tidy sizing := by
  simp only [Floor.isQuiet, Bool.and_eq_true, List.isEmpty_iff] at quiet
  obtain ⟨⟨queue, running⟩, awaiting⟩ := quiet
  exact ⟨awaiting, by simp [queue], by simp [running]⟩

/-- The turn of a run is made of moves of the run and leaves it tended. The surroundings may be in
any state when the turn begins. -/
theorem drives_advance (never : ∀ state, surroundings.isCancelled state = false)
    (tended : run.Tended) (state : σ) :
    Drives surroundings (run, state) (run.advance surroundings state) ∧
      (run.advance surroundings state).1.Tended := by
  obtain ⟨plan, tree, stage⟩ := run
  cases stage with
  | concluding rest => exact ⟨.refl, tended⟩
  | working pool =>
    obtain ⟨producer, floor, cancelled⟩ := pool
    obtain ⟨uncancelled, tidy⟩ := tended _ rfl
    obtain ⟨moves, tended'⟩ := SyncPlan.drives_advance never producer
      ⟨floor, cancelled, state, tree⟩ ⟨uncancelled, tidy⟩
    refine ⟨moves, fun pool stage => ?_⟩
    cases stage
    exact ⟨tended'.uncancelled, tended'.tidy⟩

/-- The turn of the workers is made of moves of the run and leaves it tended. If the producer has
given up, the workers drop the queue; otherwise they empty it. -/
theorem drives_work (never : ∀ state, surroundings.isCancelled state = false)
    (tended : run.Tended) (state : σ) :
    Drives surroundings (run, state) (run.work surroundings state) ∧
      (run.work surroundings state).1.Tended := by
  obtain ⟨plan, tree, stage⟩ := run
  cases stage with
  | concluding rest => exact ⟨.refl, tended⟩
  | working pool =>
    obtain ⟨producer, floor, cancelled⟩ := pool
    obtain ⟨uncancelled, tidy⟩ := tended _ rfl
    obtain rfl : cancelled = false := uncancelled
    have tended' : plan.Tended ⟨floor, false, state, tree⟩ := ⟨rfl, tidy⟩
    cases stopping : State.isStopping (⟨producer, floor, false⟩ : SyncPool) with
    | true =>
      have stopped : ∀ floor, (⟨producer, floor, false⟩ : SyncPool).isStopping = true :=
        fun _ => stopping
      obtain ⟨moves, uncancelled, quiet⟩ := drives_abandon never tended' stopped
      rw [work]
      dsimp only
      rw [stopping, if_pos rfl]
      refine ⟨moves, fun pool stage => ?_⟩
      cases stage
      exact ⟨uncancelled, tidy_of_isQuiet quiet⟩
    | false =>
      have stopped : ∀ floor, (⟨producer, floor, false⟩ : SyncPool).isStopping = false :=
        fun _ => stopping
      obtain ⟨moves, uncancelled, quiet⟩ := drives_complete never tended' stopped
      rw [work]
      dsimp only
      rw [stopping, if_neg Bool.false_ne_true]
      refine ⟨moves, fun pool stage => ?_⟩
      cases stage
      exact ⟨uncancelled, tidy_of_isQuiet quiet⟩

/-- A run that is carried on comes to its end by moves of the run, and the end that is reported is
the one that it comes to. This holds from every turn on, and whatever others have made of the
surroundings before. -/
theorem drives_finish (never : ∀ state, surroundings.isCancelled state = false)
    (tended : run.Tended) (state : σ) :
    ∃ ended : ActiveRun,
      Drives surroundings (run, state) (ended, (run.finish surroundings state).2) ∧
      ended.outcome? = some (run.finish surroundings state).1 := by
  obtain ⟨plan, tree, stage⟩ := run
  cases stage with
  | concluding rest => exact ⟨_, drives_calls tree rest state, rfl⟩
  | working pool =>
    obtain ⟨producer, floor, cancelled⟩ := pool
    obtain ⟨uncancelled, tidy⟩ := tended _ rfl
    obtain ⟨moves, uncancelled, quiet⟩ := drives_pool never producer
      ⟨floor, cancelled, state, tree⟩ ⟨uncancelled, tidy⟩
    rw [finish]
    dsimp only
    revert moves uncancelled quiet
    generalize Pool.drive (plan.host surroundings) plan.sizing producer
      ⟨floor, cancelled, state, tree⟩ = driven
    obtain ⟨produced, floor, cancelled, outside, tree⟩ := driven
    intro moves uncancelled quiet
    obtain rfl : cancelled = false := uncancelled
    have ended : (⟨.done produced, floor, false⟩ : SyncPool).ended? = some produced := by
      have quiet : floor.isQuiet = true := quiet
      simp [State.ended?, State.produced?, quiet]
    exact ⟨_, moves.trans (.head (.conclude tree outside ended)
      (drives_calls tree (plan.conclude tree produced false) outside)), rfl⟩

end ActiveRun

/-- A run that is driven is one of the executions of its plan: driving it is carrying it on from
its start to its end. -/
theorem SyncPlan.drives_run {σ : Type} {surroundings : Surroundings σ} (plan : SyncPlan)
    (never : ∀ state, surroundings.isCancelled state = false) (state : σ) :
    ∃ run : ActiveRun,
      Drives surroundings (.start plan false, state)
        (run, (plan.drive surroundings false state).2) ∧
      run.outcome? = some (plan.drive surroundings false state).1 :=
  ActiveRun.drives_finish never (ActiveRun.tended_start plan) state

end DatasetSync
