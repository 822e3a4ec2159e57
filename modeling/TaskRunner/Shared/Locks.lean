import TaskRunner.Base.Dict
import TaskRunner.Base.Locks
import TaskRunner.Base.Machine

/-!
`DistributedLockManager` of `shared/locks.py`: one `asyncio` lock for each key, made when the key is first asked for.
A call of `acquire` runs until it must wait, or until its body is under way.
-/

namespace TaskRunner
open Base

/-- Where a call of `acquire` stands. -/
inductive LockStage where
  | outside
  | waiting (key : String)
  | inside (key : String)
  deriving DecidableEq

/-- The stage is no stage at another key. -/
def LockStage.Near (key : String) (stage : LockStage) : Prop :=
  ∀ other, other ≠ key → stage ≠ .waiting other ∧ stage ≠ .inside other

theorem LockStage.near_outside (key : String) : LockStage.Near key .outside :=
  fun _ _ => ⟨LockStage.noConfusion, LockStage.noConfusion⟩

theorem LockStage.near_waiting (key : String) : LockStage.Near key (.waiting key) := by
  intro other different
  refine ⟨?_, LockStage.noConfusion⟩
  rintro ⟨⟩
  exact different rfl

theorem LockStage.near_inside (key : String) : LockStage.Near key (.inside key) := by
  intro other different
  refine ⟨LockStage.noConfusion, ?_⟩
  rintro ⟨⟩
  exact different rfl

structure DistributedLockManager where
  locks : Dict String (AsyncLock ℕ) := Dict.empty
  stages : ℕ → LockStage := fun _ => .outside

/-- `cancel` is what the end of the call's timeout does to it, and what anyone else may who cancels its task. `leave` is
the end of its body, normal or not. -/
inductive LockEvent where
  | acquire (call : ℕ) (key : String)
  | cancel (call : ℕ)
  | resume (call : ℕ)
  | leave (call : ℕ)
  deriving DecidableEq

namespace DistributedLockManager

def lock (s : DistributedLockManager) (key : String) : AsyncLock ℕ := s.locks.getD key {}

def put (s : DistributedLockManager) (key : String) (lock : AsyncLock ℕ) (call : ℕ) (stage : LockStage) :
    DistributedLockManager :=
  { locks := s.locks.set key lock, stages := Function.update s.stages call stage }

def step (s : DistributedLockManager) : LockEvent → DistributedLockManager
  | .acquire call key =>
    match s.stages call with
    | .outside =>
      match (s.lock key).acquire call with
      | (true, lock) => s.put key lock call (.inside key)
      | (false, lock) => s.put key lock call (.waiting key)
    | _ => s
  | .cancel call =>
    match s.stages call with
    | .waiting key => s.put key ((s.lock key).cancel call) call (.waiting key)
    | _ => s
  | .resume call =>
    match s.stages call with
    | .waiting key =>
      match (s.lock key).resume call with
      | (some true, lock) => s.put key lock call (.inside key)
      | (some false, lock) => s.put key lock call .outside
      | (none, _) => s
    | _ => s
  | .leave call =>
    match s.stages call with
    | .inside key => s.put key (s.lock key).release call .outside
    | _ => s

def after (events : List LockEvent) : DistributedLockManager := Machine.run step {} events

/-! ### One mutex for each key -/

/-- The lock of a key is a sound one, whose holder is the call inside. -/
structure Guarded (s : DistributedLockManager) (key : String) (holder : Option ℕ) : Prop where
  keeps : (s.lock key).Keeps holder
  inside : ∀ call, s.stages call = .inside key ↔ holder = some call
  waiting : ∀ call, s.stages call = .waiting key ↔ call ∈ (s.lock key).callers

theorem guarded_init (key : String) : ({} : DistributedLockManager).Guarded key none where
  keeps := ⟨AsyncLock.sound_new, rfl⟩
  inside call := by simp
  waiting call := by simp [DistributedLockManager.lock, AsyncLock.callers, Dict.getD]

@[simp] theorem put_lock_self (s : DistributedLockManager) (key : String) (lock : AsyncLock ℕ) (call : ℕ)
    (stage : LockStage) : (s.put key lock call stage).lock key = lock := by
  simp [put, DistributedLockManager.lock, Dict.getD]

theorem put_lock_other (s : DistributedLockManager) {key other : String} (different : other ≠ key)
    (lock : AsyncLock ℕ) (call : ℕ) (stage : LockStage) :
    (s.put key lock call stage).lock other = s.lock other := by
  simp [put, DistributedLockManager.lock, Dict.getD, Dict.get?_set_ne _ different]

theorem put_stages (s : DistributedLockManager) (key : String) (lock : AsyncLock ℕ) (call other : ℕ)
    (stage : LockStage) : (s.put key lock call stage).stages other = if other = call then stage else s.stages other :=
  Function.update_apply ..

/-- A call that moves at its own key leaves the other keys alone. -/
theorem Guarded.elsewhere {s : DistributedLockManager} {key other : String} {holder : Option ℕ}
    (guarded : s.Guarded other holder) (different : other ≠ key) (lock : AsyncLock ℕ) {call : ℕ} {stage : LockStage}
    (before : LockStage.Near key (s.stages call)) (after : LockStage.Near key stage) :
    (s.put key lock call stage).Guarded other holder := by
  obtain ⟨unwaiting, outside⟩ := before other different
  obtain ⟨unwaiting', outside'⟩ := after other different
  refine ⟨?_, fun caller => ?_, fun caller => ?_⟩
  · rw [put_lock_other s different]
    exact guarded.keeps
  · rw [put_stages, ← guarded.inside]
    split
    · rename_i same
      rw [same]
      exact iff_of_false outside' outside
    · exact Iff.rfl
  · rw [put_stages, put_lock_other s different, ← guarded.waiting]
    split
    · rename_i same
      rw [same]
      exact iff_of_false unwaiting' unwaiting
    · exact Iff.rfl

/-- What a move of one call does to its own key. -/
theorem Guarded.here {s : DistributedLockManager} {key : String} {holder holder' : Option ℕ}
    (guarded : s.Guarded key holder) {lock : AsyncLock ℕ} {call : ℕ} {stage : LockStage} (keeps : lock.Keeps holder')
    (inside : stage = .inside key ↔ holder' = some call)
    (others : ∀ other, other ≠ call → (holder' = some other ↔ holder = some other))
    (waiting : stage = .waiting key ↔ call ∈ lock.callers)
    (listed : ∀ other, other ≠ call → (other ∈ lock.callers ↔ other ∈ (s.lock key).callers)) :
    (s.put key lock call stage).Guarded key holder' := by
  refine ⟨?_, fun caller => ?_, fun caller => ?_⟩
  · rw [put_lock_self]
    exact keeps
  · rw [put_stages]
    split
    · rename_i same
      rw [same]
      exact inside
    · rename_i different
      rw [others caller different]
      exact guarded.inside caller
  · rw [put_stages, put_lock_self]
    split
    · rename_i same
      rw [same]
      exact waiting
    · rename_i different
      rw [listed caller different]
      exact guarded.waiting caller

/-- A step is at most one step of the mutex of each key, and only a cancelled caller gives up. -/
structure Simulated (s : DistributedLockManager) (event : LockEvent) (key : String) (holder holder' : Option ℕ)
    (move : Option (MutexStep ℕ)) (t : DistributedLockManager) : Prop where
  guarded : t.Guarded key holder'
  mutex : (t.lock key).mutex holder' = Machine.run FifoMutex.step ((s.lock key).mutex holder) move.toList
  abandons : ∀ call, move = some (.abandon call) → event = .cancel call

theorem Simulated.stays {s : DistributedLockManager} (event : LockEvent) {key : String} {holder : Option ℕ}
    (guarded : s.Guarded key holder) : Simulated s event key holder holder none s :=
  ⟨guarded, rfl, fun _ => nofun⟩

theorem Simulated.elsewhere {s : DistributedLockManager} (event : LockEvent) {key other : String} {holder : Option ℕ}
    (guarded : s.Guarded other holder) (different : other ≠ key) (lock : AsyncLock ℕ) {call : ℕ} {stage : LockStage}
    (before : LockStage.Near key (s.stages call)) (after : LockStage.Near key stage) :
    Simulated s event other holder holder none (s.put key lock call stage) :=
  ⟨guarded.elsewhere different lock before after, by rw [put_lock_other s different]; rfl, fun _ => nofun⟩

section Step

variable {s : DistributedLockManager} {key : String} {holder : Option ℕ} (guarded : s.Guarded key holder)
include guarded

theorem acquire_simulated (call : ℕ) (own : String) :
    ∃ holder' move, Simulated s (.acquire call own) key holder holder' move (s.step (.acquire call own)) := by
  simp only [step]
  cases stage : s.stages call with
  | waiting | inside => exact ⟨holder, none, .stays _ guarded⟩
  | outside =>
    dsimp only
    by_cases same : key = own
    · subst same
      have new : call ∉ (s.lock key).callers := by
        rw [← guarded.waiting, stage]
        exact LockStage.noConfusion
      rcases AsyncLock.acquire_cases guarded.keeps new with
        ⟨lock, result, idle, keeps, mutex, callers⟩ | ⟨lock, result, keeps, mutex, callers⟩
      · rw [result]
        refine ⟨some call, some (.take call), ?_, by rw [put_lock_self]; exact mutex, fun _ => nofun⟩
        refine guarded.here keeps (iff_of_true rfl rfl) ?_ (iff_of_false LockStage.noConfusion ?_) ?_
        · intro other different
          rw [idle]
          exact iff_of_false (fun held => different (Option.some.inj held).symm) nofun
        · rw [callers]
          exact new
        · intro other _
          rw [callers]
      · rw [result]
        refine ⟨holder, some (.request call), ?_, by rw [put_lock_self]; exact mutex, fun _ => nofun⟩
        refine guarded.here keeps (iff_of_false LockStage.noConfusion ?_) (fun _ _ => Iff.rfl) ?_ ?_
        · rw [← guarded.inside, stage]
          exact LockStage.noConfusion
        · rw [callers]
          exact iff_of_true rfl (List.mem_append_right _ (List.mem_singleton_self call))
        · intro other different
          simp [callers, different]
    · have near : LockStage.Near own (s.stages call) := by
        rw [stage]
        exact LockStage.near_outside own
      refine ⟨holder, none, ?_⟩
      split
      · exact .elsewhere _ guarded same _ near (LockStage.near_inside own)
      · exact .elsewhere _ guarded same _ near (LockStage.near_waiting own)

theorem cancel_simulated (call : ℕ) :
    ∃ holder' move, Simulated s (.cancel call) key holder holder' move (s.step (.cancel call)) := by
  simp only [step]
  cases stage : s.stages call with
  | outside | inside => exact ⟨holder, none, .stays _ guarded⟩
  | waiting own =>
    by_cases same : key = own
    · subst same
      obtain ⟨keeps, mutex⟩ := AsyncLock.cancel_keeps guarded.keeps call
      refine ⟨holder, some (.abandon call), ?_, by rw [put_lock_self]; exact mutex, ?_⟩
      · refine guarded.here keeps ?_ (fun _ _ => Iff.rfl) ?_ ?_
        · rw [← guarded.inside, stage]
        · rw [AsyncLock.callers_cancel, ← guarded.waiting, stage]
        · intro other _
          rw [AsyncLock.callers_cancel]
      · rintro other ⟨⟩
        rfl
    · have near : LockStage.Near own (s.stages call) := by
        rw [stage]
        exact LockStage.near_waiting own
      exact ⟨holder, none, .elsewhere _ guarded same _ near (LockStage.near_waiting own)⟩

theorem resume_simulated (call : ℕ) :
    ∃ holder' move, Simulated s (.resume call) key holder holder' move (s.step (.resume call)) := by
  simp only [step]
  cases stage : s.stages call with
  | outside | inside => exact ⟨holder, none, .stays _ guarded⟩
  | waiting own =>
    dsimp only
    by_cases same : key = own
    · subst same
      have outside : holder ≠ some call := by
        rw [ne_eq, ← guarded.inside, stage]
        exact LockStage.noConfusion
      rcases AsyncLock.resume_cases guarded.keeps call with
        ⟨result, _⟩ | ⟨lock, result, _, idle, keeps, mutex, callers⟩ | ⟨lock, result, _, _, keeps, mutex, callers⟩
      · rw [result]
        exact ⟨holder, none, .stays _ guarded⟩
      · rw [result]
        refine ⟨some call, some .grant, ?_, by rw [put_lock_self]; exact mutex, fun _ => nofun⟩
        refine guarded.here keeps (iff_of_true rfl rfl) ?_ (iff_of_false LockStage.noConfusion ?_) ?_
        · intro other different
          rw [idle]
          exact iff_of_false (fun held => different (Option.some.inj held).symm) nofun
        · simp [callers]
        · intro other different
          simp [callers, different]
      · rw [result]
        refine ⟨holder, none, ?_, by rw [put_lock_self]; exact mutex, fun _ => nofun⟩
        refine guarded.here keeps (iff_of_false LockStage.noConfusion outside) (fun _ _ => Iff.rfl)
          (iff_of_false LockStage.noConfusion ?_) ?_
        · simp [callers]
        · intro other different
          simp [callers, different]
    · have near : LockStage.Near own (s.stages call) := by
        rw [stage]
        exact LockStage.near_waiting own
      refine ⟨holder, none, ?_⟩
      split
      · exact .elsewhere _ guarded same _ near (LockStage.near_inside own)
      · exact .elsewhere _ guarded same _ near (LockStage.near_outside own)
      · exact .stays _ guarded

theorem leave_simulated (call : ℕ) :
    ∃ holder' move, Simulated s (.leave call) key holder holder' move (s.step (.leave call)) := by
  simp only [step]
  cases stage : s.stages call with
  | outside | waiting => exact ⟨holder, none, .stays _ guarded⟩
  | inside own =>
    by_cases same : key = own
    · subst same
      obtain rfl := (guarded.inside call).mp stage
      obtain ⟨keeps, mutex⟩ := AsyncLock.release_keeps guarded.keeps
      have callers : (s.lock key).release.callers = (s.lock key).callers := AsyncLock.wakeUpFirst_callers _
      refine ⟨none, some .release, ?_, by rw [put_lock_self]; exact mutex, fun _ => nofun⟩
      refine guarded.here keeps (iff_of_false LockStage.noConfusion nofun) ?_ ?_ ?_
      · intro other different
        exact iff_of_false nofun fun held => different (Option.some.inj held).symm
      · rw [callers, ← guarded.waiting, stage]
        exact iff_of_false LockStage.noConfusion LockStage.noConfusion
      · intro other _
        rw [callers]
    · have near : LockStage.Near own (s.stages call) := by
        rw [stage]
        exact LockStage.near_inside own
      exact ⟨holder, none, .elsewhere _ guarded same _ near (LockStage.near_outside own)⟩

/-- Whatever happens refines, for each key, the mutex that serves its callers in the order they came. -/
theorem step_simulated (event : LockEvent) :
    ∃ holder' move, Simulated s event key holder holder' move (s.step event) := by
  cases event with
  | acquire call own => exact acquire_simulated guarded call own
  | cancel call => exact cancel_simulated guarded call
  | resume call => exact resume_simulated guarded call
  | leave call => exact leave_simulated guarded call

end Step

theorem after_guarded (events : List LockEvent) (key : String) : ∃ holder, (after events).Guarded key holder := by
  refine Machine.run_invariant (I := fun s : DistributedLockManager => ∃ holder, s.Guarded key holder) ?_ ⟨none, guarded_init key⟩ events
  intro s event given
  obtain ⟨holder, guarded⟩ := given
  obtain ⟨holder', move, simulated⟩ := step_simulated guarded event
  exact ⟨holder', simulated.guarded⟩

/-- No two calls are ever inside the body of one key, and the lock is taken exactly while one is. -/
theorem mutual_exclusion (events : List LockEvent) (key : String) :
    (∀ first second, (after events).stages first = .inside key → (after events).stages second = .inside key →
      first = second) ∧
    (((after events).lock key).locked = true ↔ ∃ call, (after events).stages call = .inside key) := by
  obtain ⟨holder, guarded⟩ := after_guarded events key
  constructor
  · intro first second one other
    rw [guarded.inside] at one other
    exact Option.some.inj (one.symm.trans other)
  · rw [guarded.keeps.locked, Option.isSome_iff_exists]
    exact exists_congr fun call => (guarded.inside call).symm

/-! ### The order of service -/

/-- Only its own `acquire` makes a call wait. -/
theorem step_unwaiting {s : DistributedLockManager} {call : ℕ} (unwaiting : ∀ key, s.stages call ≠ .waiting key)
    {event : LockEvent} (other : ∀ key, event ≠ .acquire call key) (key : String) :
    (s.step event).stages call ≠ .waiting key := by
  have moved : ∀ (own : String) (lock : AsyncLock ℕ) (mover : ℕ) (stage : LockStage),
      (call = mover → stage ≠ .waiting key) → (s.put own lock mover stage).stages call ≠ .waiting key := by
    intro own lock mover stage elsewhere
    rw [put_stages]
    split
    · rename_i same
      exact elsewhere same
    · exact unwaiting key
  cases event with
  | acquire mover own =>
    simp only [step]
    split
    · split
      · exact moved own _ mover _ fun _ => LockStage.noConfusion
      · refine moved own _ mover _ ?_
        rintro rfl
        exact (other own rfl).elim
    · exact unwaiting key
  | cancel mover =>
    simp only [step]
    split
    · rename_i own waiting
      refine moved own _ mover _ ?_
      rintro rfl
      exact (unwaiting own waiting).elim
    · exact unwaiting key
  | resume mover =>
    simp only [step]
    split
    · split
      · exact moved _ _ mover _ fun _ => LockStage.noConfusion
      · exact moved _ _ mover _ fun _ => LockStage.noConfusion
      · exact unwaiting key
    · exact unwaiting key
  | leave mover =>
    simp only [step]
    split
    · exact moved _ _ mover _ fun _ => LockStage.noConfusion
    · exact unwaiting key

/-- The first call waits with the second behind it, or its wait is over. -/
def Before (key : String) (first second : ℕ) (s : DistributedLockManager) : Prop :=
  (∃ holder, s.Guarded key holder ∧ ((s.lock key).mutex holder).Ahead first second) ∨
    ∀ other, s.stages first ≠ .waiting other

theorem step_before {key : String} {first second : ℕ} {s : DistributedLockManager} (before : Before key first second s)
    {event : LockEvent} (patient : event ≠ .cancel first) (once : ∀ other, event ≠ .acquire first other) :
    Before key first second (s.step event) := by
  rcases before with ⟨holder, guarded, ahead⟩ | done
  · obtain ⟨holder', move, guarded', mutex, abandons⟩ := step_simulated guarded event
    cases move with
    | none => exact Or.inl ⟨holder', guarded', by rw [mutex]; exact ahead⟩
    | some move =>
      have stays : move ≠ .abandon first := by
        rintro rfl
        exact patient (abandons first rfl)
      rcases FifoMutex.step_ahead ahead stays with still | served
      · exact Or.inl ⟨holder', guarded', by rw [mutex]; exact still⟩
      · right
        have held : ((s.step event).lock key).mutex holder' = ((s.lock key).mutex holder).step move := mutex
        rw [← held] at served
        rw [(guarded'.inside first).mpr served]
        exact fun _ => LockStage.noConfusion
  · exact Or.inr (step_unwaiting done once)

/-- A call that waits and is not cancelled is inside before any call that came after it. -/
theorem no_overtaking (before later : List LockEvent) (key : String) (first second : ℕ)
    (waits : first ∈ ((after before).lock key).queue) (outside : (after before).stages second = .outside)
    (patient : .cancel first ∉ later) (once : ∀ other, .acquire first other ∉ later)
    (still : ∃ other, (after (before ++ later)).stages first = .waiting other) :
    (after (before ++ later)).stages second ≠ .inside key := by
  have start : Before key first second (after before) := by
    obtain ⟨holder, guarded⟩ := after_guarded before key
    obtain ⟨front, back, queue⟩ := List.append_of_mem waits
    refine Or.inl ⟨holder, guarded, ?_, front, back, queue, ?_⟩
    · show ¬ holder = some second
      rw [← guarded.inside, outside]
      exact LockStage.noConfusion
    · intro member
      have queued : second ∈ ((after before).lock key).queue := by
        rw [queue]
        exact List.mem_append_left _ member
      obtain ⟨waiter, listed, named⟩ := List.mem_map.mp queued
      have waiting : second ∈ ((after before).lock key).callers :=
        List.mem_map.mpr ⟨waiter, (List.mem_filter.mp listed).1, named⟩
      rw [← guarded.waiting, outside] at waiting
      cases waiting
  have quiet : Machine.Along step (fun _ event => event ≠ .cancel first ∧ ∀ other, event ≠ .acquire first other)
      (after before) later := by
    refine Machine.along_of_forall ?_ _
    intro event member
    refine ⟨?_, fun other => ?_⟩
    · rintro rfl
      exact patient member
    · rintro rfl
      exact once other member
  have finish : Before key first second (after (before ++ later)) := by
    rw [after, Machine.run_append]
    refine Machine.run_invariant_along (I := Before key first second) ?_ start quiet
    intro s event given met
    exact step_before given met.1 met.2
  obtain ⟨other, waiting⟩ := still
  rcases finish with ⟨holder, guarded, idle, _⟩ | done
  · rw [ne_eq, guarded.inside]
    exact idle
  · exact (done other waiting).elim

/-- One call inside, two behind it. -/
def sampleCalls : List LockEvent := [.acquire 0 "queue:default", .acquire 1 "queue:default"]

theorem no_overtaking_sample :
    (after (sampleCalls ++ [.acquire 2 "queue:default", .leave 0, .resume 2])).stages 2 ≠ .inside "queue:default" :=
  no_overtaking sampleCalls _ "queue:default" 1 2 (by decide) (by decide) (by decide) (by simp)
    ⟨"queue:default", by decide⟩

/-! ### No wake-up is lost -/

theorem resume_inside {s : DistributedLockManager} {call : ℕ} {key : String} (inside : s.stages call = .inside key)
    (other : ℕ) : (s.step (.resume other)).stages call = .inside key := by
  have moved : ∀ {own : String} {lock : AsyncLock ℕ} {stage : LockStage}, s.stages other = .waiting own →
      (s.put own lock other stage).stages call = .inside key := by
    intro own lock stage waiting
    rw [put_stages, if_neg]
    · exact inside
    · rintro rfl
      rw [inside] at waiting
      cases waiting
  simp only [step]
  split
  · rename_i own waiting
    split
    · exact moved waiting
    · exact moved waiting
    · exact inside
  · exact inside

/-- Those before the first who still wants the key only have to find that they were cancelled. -/
theorem served {key : String} {first : ℕ} {rest : List ℕ} (callers : List ℕ) {s : DistributedLockManager}
    (guarded : s.Guarded key none) (listed : (s.lock key).callers = callers)
    (queue : (s.lock key).queue = first :: rest) :
    (Machine.run step s (callers.map .resume)).stages first = .inside key := by
  induction callers generalizing s with
  | nil =>
    have nobody : (s.lock key).waiters = [] := List.map_eq_nil_iff.mp listed
    simp [AsyncLock.queue, nobody] at queue
  | cons call others ih =>
    obtain ⟨waiter, waiters, waiting, named, listed'⟩ := List.map_eq_cons_iff.mp listed
    subst named
    have head : (s.lock key).waiters.head? = some waiter := by rw [waiting]; rfl
    have awake := guarded.keeps.called guarded.keeps.locked waiter head
    have waits : s.stages waiter.1 = .waiting key := by
      rw [guarded.waiting, listed]
      exact List.mem_cons_self
    have queued := queue
    simp only [AsyncLock.queue, waiting, List.filter_cons] at queued
    have inside : ∀ (resumed : List ℕ) {s : DistributedLockManager}, s.stages first = .inside key →
        (Machine.run step s (resumed.map .resume)).stages first = .inside key := by
      intro resumed s inside
      induction resumed generalizing s with
      | nil => exact inside
      | cons other _ ih => exact ih (resume_inside inside other)
    rw [List.map_cons, Machine.run_cons]
    rcases AsyncLock.resume_cases guarded.keeps waiter.1 with
      ⟨_, pending⟩ | ⟨lock, result, woken, _⟩ | ⟨lock, result, _, unlisted, _, mutex, left⟩
    · exact (awake (pending waiter.2 (by rw [waiting]; exact List.mem_cons_self))).elim
    · have same : waiter.1 = first := by
        have state : waiter = (waiter.1, .woken) :=
          guarded.keeps.unique (by rw [waiting]; exact List.mem_cons_self) woken rfl
        rw [state] at queued
        exact (List.cons.inj queued).1
      apply inside
      rw [← same]
      simp only [step, waits, result]
      rw [put_stages, if_pos rfl]
    · have put : s.step (.resume waiter.1) = s.put key lock waiter.1 .outside := by simp only [step, waits, result]
      obtain ⟨holder, move, guarded', _⟩ := step_simulated guarded (.resume waiter.1)
      have idle : holder = none := by
        rw [Option.eq_none_iff_forall_ne_some]
        intro caller held
        rw [← guarded'.inside, put, put_stages] at held
        split at held
        · cases held
        · rw [guarded.inside] at held
          cases held
      subst idle
      refine ih guarded' ?_ ?_
      · have nodup := guarded.keeps.nodup
        rw [listed, List.nodup_cons] at nodup
        rw [put, put_lock_self, left, listed, List.filter_cons_of_neg (by simp), List.filter_eq_self]
        intro other member
        refine decide_eq_true ?_
        rintro rfl
        exact nodup.1 member
      · rw [put, put_lock_self]
        exact (congrArg FifoMutex.queue mutex).trans queue

/-- While the lock is free, it only takes the waiting calls to run again for the first of them that still wants the key
to be inside. -/
theorem no_lost_wakeup (events : List LockEvent) (key : String) (first : ℕ) (rest : List ℕ)
    (free : ((after events).lock key).locked = false)
    (queue : ((after events).lock key).queue = first :: rest) :
    (Machine.run step (after events) (((after events).lock key).callers.map .resume)).stages first = .inside key := by
  obtain ⟨holder, guarded⟩ := after_guarded events key
  have idle : holder = none := by
    rw [← Option.not_isSome_iff_eq_none, ← guarded.keeps.locked, free]
    exact Bool.false_ne_true
  subst idle
  exact served _ guarded rfl queue

/-- The second call is woken and cancelled before it runs; the third is called all the same. -/
theorem no_lost_wakeup_sample :
    (Machine.run step (after (sampleCalls ++ [.acquire 2 "queue:default", .leave 0, .cancel 1]))
      [.resume 1, .resume 2]).stages 2 = .inside "queue:default" :=
  no_lost_wakeup (sampleCalls ++ [.acquire 2 "queue:default", .leave 0, .cancel 1]) "queue:default" 2 [] (by decide)
    (by decide)

end DistributedLockManager

end TaskRunner
