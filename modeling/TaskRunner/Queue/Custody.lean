import TaskRunner.Queue.Placement

/-!
Who has charge of a task: the heaps, a worker's lease, or nobody because it is finished. The invariants of
one life here are what the scheduler's guarantees rest on.
-/

namespace TaskRunner
open Base

namespace Life

/-! ### The three situations -/

def Finished (l : Life) : Prop :=
  (l.task.status = .succeeded ∨ l.task.status = .cancelled ∨ l.task.status = .deadLettered) ∧ l.leased = false

def Running (l : Life) : Prop :=
  l.task.status = .running ∧ l.leased = true ∧ l.task.leaseDeadline.isSome ∧ l.task.assignedWorker.isSome

def Waiting (l : Life) : Prop :=
  (l.task.status = .queued ∨ l.task.status = .retrying) ∧ l.leased = false ∧ 0 < l.waiting

/-- A task never cancelled is in one of the three. -/
def Situated (l : Life) : Prop := l.cancelled = false → l.Finished ∨ l.Running ∨ l.Waiting

theorem situated_stable : Stable Situated where
  born l newborn _ := by
    refine Or.inr (Or.inr ⟨Or.inl newborn.status, newborn.free.1, ?_⟩)
    rw [newborn.waiting]
    exact Nat.one_pos
  settles l m situated settles live := by
    have live' : l.cancelled = false := settles.cancelled.symm.trans live
    unfold Finished Running Waiting
    rw [settles.task, settles.leased]
    rcases situated live' with finished | running | ⟨status, free, waiting⟩
    · exact Or.inl finished
    · exact Or.inr (Or.inl running)
    · refine Or.inr (Or.inr ⟨status, free, ?_⟩)
      -- an open task loses no entry
      have kept := settles.kept live' (by rcases status with h | h <;> rw [h] <;> decide)
        (by rcases status with h | h <;> rw [h] <;> decide)
      rw [kept]
      exact waiting
  dispatch _ _ _ _ _ _ _ := Or.inr (Or.inl ⟨rfl, rfl, rfl, rfl⟩)
  complete _ status _ _ final _ := by
    refine Or.inl ⟨?_, rfl⟩
    rcases final with rfl | rfl
    · exact Or.inl rfl
    · exact Or.inr (Or.inl rfl)
  retry l reason start now _ _ := by
    have status := retry_status l reason start now
    have free := retry_leased l reason start now
    by_cases budget : l.retryable
    · rw [if_pos budget] at status
      refine Or.inr (Or.inr ⟨Or.inr status, free, ?_⟩)
      rw [retry_waiting, if_pos budget]
      exact Nat.succ_pos _
    · rw [if_neg budget] at status
      exact Or.inl ⟨Or.inr (Or.inr status), free⟩
  cancel _ _ marked := by cases marked

/-! ### One entry for one dispatch -/

/-- A task never cancelled has at most the one entry its status stands for: a dead-lettered or cancelled one
may only have entries that promotion drops. -/
def Sole (l : Life) : Prop :=
  l.cancelled = false →
    ((l.task.status = .queued ∨ l.task.status = .retrying) ∧ l.waiting ≤ 1) ∨ l.waiting = 0 ∨
      ((l.task.status = .cancelled ∨ l.task.status = .deadLettered) ∧ l.ready = 0)

theorem Newborn.sole {l : Life} (newborn : l.Newborn) : l.Sole :=
  fun _ => Or.inl ⟨Or.inl newborn.status, newborn.waiting.le⟩

theorem Sole.settles {l m : Life} (sole : l.Sole) (settles : l.Settles m) : m.Sole := by
  intro live
  have fewer := settles.waiting
  rw [settles.task]
  rcases sole (settles.cancelled.symm.trans live) with ⟨status, one⟩ | none | ⟨closed, unready⟩
  · exact Or.inl ⟨status, by omega⟩
  · exact Or.inr (Or.inl (by omega))
  · have ready := settles.ready closed
    exact Or.inr (Or.inr ⟨closed, by omega⟩)

theorem Sole.open {l m : Life} (sole : l.Sole) (settles : l.Settles m) (live : l.cancelled = false)
    (positive : 0 < m.ready) : l.task.status = .queued ∨ l.task.status = .retrying := by
  have fewer := settles.waiting
  rcases sole live with ⟨status, _⟩ | none | ⟨closed, unready⟩
  · exact status
  · simp only [Life.waiting] at fewer none
    omega
  · have ready := settles.ready closed
    omega

theorem Sole.dispatch {l : Life} (sole : l.Sole) (live : l.cancelled = false) (positive : 0 < l.ready)
    (workerId : String) (deadline : ℚ) : (l.dispatch workerId deadline).Sole := by
  intro _
  have less := dispatch_waiting positive workerId deadline
  have some : 0 < l.waiting := Nat.add_pos_left positive _
  rcases sole live with ⟨_, one⟩ | none | ⟨_, unready⟩
  · exact Or.inr (Or.inl (by omega))
  · omega
  · omega

theorem sole_retry {l : Life} (budget : l.retryable → l.waiting = 0) (spent : ¬ l.retryable → l.ready = 0)
    (reason : String) (start now : ℚ) : (l.retry reason start now).Sole := by
  intro _
  have status := retry_status l reason start now
  have more := retry_waiting l reason start now
  by_cases left : l.retryable
  · rw [if_pos left] at status more
    have none := budget left
    exact Or.inl ⟨Or.inr status, by omega⟩
  · rw [if_neg left] at status
    exact Or.inr (Or.inr ⟨Or.inr status, (retry_ready left reason start now).trans (spent left)⟩)

theorem Sole.running {l : Life} (sole : l.Sole) (leased : l.Leased) (held : l.leased = true) : l.waiting = 0 := by
  obtain ⟨status, live, _⟩ := leased.running held
  rcases sole live with ⟨waiting, _⟩ | none | ⟨closed, _⟩
  · rw [status] at waiting
    rcases waiting with h | h <;> cases h
  · exact none
  · rw [status] at closed
    rcases closed with h | h <;> cases h

/-! ### The dispatch budget -/

/-- The dispatches so far and the entries that wait are paid for by the first submission and the retries. -/
def Paid (dispatches : ℕ) (l : Life) : Prop :=
  (dispatches + l.waiting : Int) ≤ 1 + min l.task.attempts l.task.spec.maxRetries ∧ 0 ≤ l.task.spec.maxRetries

theorem Newborn.paid {l : Life} (newborn : l.Newborn) : l.Paid 0 := by
  refine ⟨?_, newborn.budget⟩
  have some := newborn.budget
  rw [newborn.waiting, newborn.attempts, min_eq_left some]
  omega

theorem Paid.settles {n : ℕ} {l m : Life} (paid : l.Paid n) (settles : l.Settles m) : m.Paid n := by
  obtain ⟨bound, nonneg⟩ := paid
  have fewer := settles.waiting
  unfold Paid
  rw [settles.task]
  exact ⟨by omega, nonneg⟩

theorem Paid.dispatch {n : ℕ} {l : Life} (paid : l.Paid n) (positive : 0 < l.ready) (workerId : String)
    (deadline : ℚ) : (l.dispatch workerId deadline).Paid (n + 1) := by
  obtain ⟨bound, nonneg⟩ := paid
  have less := dispatch_waiting positive workerId deadline
  refine ⟨?_, nonneg⟩
  show ((n + 1 : ℕ) + (l.dispatch workerId deadline).waiting : Int) ≤
    1 + min l.task.attempts l.task.spec.maxRetries
  omega

theorem Paid.retry {n : ℕ} {l : Life} (paid : l.Paid n) (reason : String) (start now : ℚ) :
    (l.retry reason start now).Paid n := by
  obtain ⟨bound, nonneg⟩ := paid
  have more := retry_waiting l reason start now
  unfold Paid
  rw [retry_attempts, retry_task_spec]
  refine ⟨?_, nonneg⟩
  by_cases budget : l.retryable
  · rw [if_pos budget] at more
    have within : l.task.attempts + 1 ≤ l.task.spec.maxRetries := budget
    omega
  · rw [if_neg budget] at more
    omega

end Life

namespace InMemoryTaskQueue

/-! ### Situations -/

def Enqueued (q : InMemoryTaskQueue) (id : String) (task : TaskEnvelope) : Prop :=
  (∃ entry ∈ q.delayed, entry.taskId = id) ∨ ∃ entry ∈ q.ready.getD task.spec.queue [], entry.taskId = id

theorem enqueued_of_waiting {q : InMemoryTaskQueue} (rep : Represented q) {id : String} {task : TaskRef}
    (found : q.tasks.get? id = some task) (waiting : 0 < (q.lifeOf id task).waiting) :
    q.Enqueued id (q.objects task) := by
  rcases Nat.add_pos_iff_pos_or_pos.mp waiting with ready | delayed
  · obtain ⟨queueName, entry, present, same⟩ := readyCount_pos.mp ready
    obtain ⟨ref, found', queue, _⟩ := rep.ready queueName entry present
    rw [same] at found'
    obtain rfl : ref = task := Option.some.inj (found'.symm.trans found)
    rw [← queue] at present
    exact Or.inr ⟨entry, present, same⟩
  · exact Or.inl (delayedCount_pos.mp delayed)

def IsFinished (q : InMemoryTaskQueue) (id : String) (task : TaskEnvelope) : Prop :=
  (task.status = .succeeded ∨ task.status = .cancelled ∨ task.status = .deadLettered) ∧ id ∉ q.inflight

/-- The lease reaper can recover the task: it is in flight with a deadline and a worker. -/
def IsLeased (q : InMemoryTaskQueue) (id : String) (task : TaskEnvelope) : Prop :=
  task.status = .running ∧ id ∈ q.inflight ∧ task.leaseDeadline.isSome ∧ task.assignedWorker.isSome

def IsQueued (q : InMemoryTaskQueue) (id : String) (task : TaskEnvelope) : Prop :=
  (task.status = .queued ∨ task.status = .retrying) ∧ id ∉ q.inflight ∧ q.Enqueued id task

def ExactlyOne (p q r : Prop) : Prop := (p ∧ ¬ q ∧ ¬ r) ∨ (¬ p ∧ q ∧ ¬ r) ∨ (¬ p ∧ ¬ q ∧ r)

theorem exactly_one_situation {q : InMemoryTaskQueue} (rep : Represented q) (situated : Everywhere Life.Situated q)
    {id : String} {task : TaskEnvelope} (named : q.task? id = some task) (unmarked : id ∉ q.cancelled) :
    ExactlyOne (q.IsFinished id task) (q.IsLeased id task) (q.IsQueued id task) := by
  obtain ⟨ref, found, rfl⟩ := Option.map_eq_some_iff.mp named
  have alive := life_eq found
  have apart : ∀ {status : TaskStatus}, (q.objects ref).status = status → ∀ other, status ≠ other →
      (q.objects ref).status ≠ other := by
    intro status same other different
    rw [same]
    exact different
  rcases situated id _ alive (decide_eq_false unmarked) with ⟨status, free⟩ | ⟨status, held, deadline, worker⟩ |
      ⟨status, free, waiting⟩
  · have unleased : id ∉ q.inflight := of_decide_eq_false free
    refine Or.inl ⟨⟨status, unleased⟩, fun leased => unleased leased.2.1, fun queued => ?_⟩
    have now := queued.1
    rcases status with h | h | h <;> rcases now with k | k <;> exact absurd k (apart h _ (by decide))
  · have leased : id ∈ q.inflight := of_decide_eq_true held
    exact Or.inr (Or.inl ⟨fun finished => finished.2 leased, ⟨status, leased, deadline, worker⟩,
      fun queued => queued.2.1 leased⟩)
  · have unleased : id ∉ q.inflight := of_decide_eq_false free
    refine Or.inr (Or.inr ⟨fun finished => ?_, fun leased => unleased leased.2.1,
      ⟨status, unleased, enqueued_of_waiting rep found waiting⟩⟩)
    have now := finished.1
    rcases status with h | h <;> rcases now with k | k | k <;> exact absurd k (apart h _ (by decide))

/-! ### Who holds a lease -/

/-- The task is in flight and assigned to the worker. -/
def HeldBy (q : InMemoryTaskQueue) (id workerId : String) : Prop :=
  id ∈ q.inflight ∧ (q.task? id).bind TaskEnvelope.assignedWorker = some workerId

instance (q : InMemoryTaskQueue) (id workerId : String) : Decidable (q.HeldBy id workerId) :=
  inferInstanceAs (Decidable (_ ∧ _))

theorem heldBy_iff {q : InMemoryTaskQueue} {id workerId : String} {l : Life} (alive : q.life id = some l) :
    q.HeldBy id workerId ↔ l.leased = true ∧ l.task.assignedWorker = some workerId := by
  obtain ⟨task, found, rfl⟩ := exists_of_life alive
  unfold HeldBy task?
  rw [found]
  exact and_congr_left fun _ => decide_eq_true_iff.symm

theorem HeldBy.alive {q : InMemoryTaskQueue} (rep : Represented q) {id workerId : String}
    (held : q.HeldBy id workerId) : ∃ l, q.life id = some l ∧ l.leased = true ∧ l.task.assignedWorker = some workerId := by
  obtain ⟨l, alive⟩ := Option.isSome_iff_exists.mp ((life_isSome q id).mpr (rep.inflight_known held.1))
  exact ⟨l, alive, (heldBy_iff alive).mp held⟩

/-- Only `reserve` gives a lease to a worker. -/
theorem Effect.held {q : InMemoryTaskQueue} {call : Call} {id workerId : String} {l l' : Life}
    (effect : Effect q call id l l') (leased : l'.leased = true) (assigned : l'.task.assignedWorker = some workerId) :
    (l.leased = true ∧ l.task.assignedWorker = some workerId) ∨
      q.handed call = some id ∧ ∃ worker completed leaseSeconds clock,
        call = .reserve worker completed leaseSeconds clock ∧ worker.workerId = workerId := by
  cases effect.move with
  | settle settles =>
    rw [settles.leased] at leased
    rw [settles.task] at assigned
    exact Or.inl ⟨leased, assigned⟩
  | @dispatch worker completed leaseSeconds clock _ made handed =>
    exact Or.inr ⟨handed, worker, completed, leaseSeconds, clock, made, Option.some.inj assigned⟩
  | complete => cases leased
  | retry =>
    rw [Life.retry_leased] at leased
    cases leased
  | cancel => cases leased
  | expire =>
    rw [Life.retry_leased] at leased
    cases leased

theorem step_leased {q : InMemoryTaskQueue} (rep : Represented q) {call : Call} {id : String} {l' : Life}
    (alive' : (q.step call).life id = some l') (leased : l'.leased = true) :
    ∃ l, q.life id = some l ∧ (l' = l ∨ call.Issued q ∧ Effect q call id l l') := by
  cases alive : q.life id with
  | none =>
    rw [(step_birth rep call alive alive').free.1] at leased
    cases leased
  | some l =>
    obtain ⟨m, after, changed⟩ := step_life rep call alive
    obtain rfl : m = l' := Option.some.inj (after.symm.trans alive')
    exact ⟨l, rfl, changed⟩

theorem step_heldBy {q : InMemoryTaskQueue} (rep : Represented q) {call : Call} {id workerId : String}
    (held : (q.step call).HeldBy id workerId) :
    q.HeldBy id workerId ∨ q.handed call = some id ∧ ∃ worker completed leaseSeconds clock,
      call = .reserve worker completed leaseSeconds clock ∧ worker.workerId = workerId := by
  obtain ⟨l', alive', leased, assigned⟩ := held.alive (step_represented rep call)
  obtain ⟨l, alive, rfl | ⟨_, effect⟩⟩ := step_leased rep alive' leased
  · exact Or.inl ((heldBy_iff alive).mpr ⟨leased, assigned⟩)
  · exact (effect.held leased assigned).imp_left (heldBy_iff alive).mpr

theorem unheld_of_released {q : InMemoryTaskQueue} (rep : Represented q) {call : Call} {id : String}
    (released : ∀ l l', Effect q call id l l' → l'.leased = false) (issued : call.Issued q) (workerId : String) :
    ¬ (q.step call).HeldBy id workerId := by
  intro held
  obtain ⟨l', alive', leased, _⟩ := held.alive (step_represented rep call)
  obtain ⟨l, alive, _⟩ := step_leased rep alive' leased
  obtain ⟨m, after, effect⟩ := (exec_stepped rep call issued).lives id l alive
  rw [← step_issued issued] at after
  obtain rfl : m = l' := Option.some.inj (after.symm.trans alive')
  rw [released l m effect] at leased
  cases leased

/-! ### Dispatches from a waiting state -/

/-- A report or retry of a task never cancelled leaves no entry that a later `reserve` could hand out although
the task no longer waits, and adds none to another that waits. -/
def LeavesNoStray (q : InMemoryTaskQueue) : Call → Prop
  | .complete taskId status _ => taskId ∉ q.cancelled →
      if status = .succeeded then q.waiting taskId = 0 else readyCount q.ready taskId = 0
  | .retry taskId _ _ => taskId ∉ q.cancelled → ∀ task ∈ q.task? taskId,
      if task.attempts + 1 ≤ task.spec.maxRetries then q.waiting taskId = 0 else readyCount q.ready taskId = 0
  | _ => True

instance (q : InMemoryTaskQueue) (call : Call) : Decidable (LeavesNoStray q call) :=
  match call with
  | .complete taskId status _ => inferInstanceAs (Decidable (taskId ∉ q.cancelled →
      if status = .succeeded then q.waiting taskId = 0 else readyCount q.ready taskId = 0))
  | .retry taskId _ _ => inferInstanceAs (Decidable (taskId ∉ q.cancelled → ∀ task ∈ q.task? taskId,
      if task.attempts + 1 ≤ task.spec.maxRetries then q.waiting taskId = 0 else readyCount q.ready taskId = 0))
  | .submit .. | .submitMany .. | .reserve .. | .cancel _ | .requeueExpiredLeases _ | .snapshot _ =>
    inferInstanceAs (Decidable True)

theorem Effect.sole {q : InMemoryTaskQueue} {call : Call} {id : String} {l l' : Life} (issued : call.Issued q)
    (effect : Effect q call id l l') (tidy : LeavesNoStray q call) (alive : q.life id = some l)
    (leased : l.Leased) (sole : l.Sole) : l'.Sole := by
  have marked : l.cancelled = false → id ∉ q.cancelled := by
    obtain ⟨task, _, rfl⟩ := exists_of_life alive
    exact of_decide_eq_false
  have counts : l.waiting = q.waiting id ∧ l.ready = readyCount q.ready id := by
    obtain ⟨task, _, rfl⟩ := exists_of_life alive
    exact ⟨rfl, rfl⟩
  cases effect.move with
  | settle settles => exact sole.settles settles
  | dispatch _ _ live settles positive =>
    exact (sole.settles settles).dispatch (settles.cancelled.trans live) positive _ _
  | complete made =>
    subst made
    intro live
    have none := tidy (marked live)
    rcases issued with rfl | rfl
    · rw [if_pos rfl] at none
      exact Or.inr (Or.inl (counts.1.trans none))
    · rw [if_neg (by decide)] at none
      exact Or.inr (Or.inr ⟨Or.inl rfl, counts.2.trans none⟩)
  | @retry reason clock made =>
    subst made
    intro live
    rw [Life.retry_cancelled] at live
    obtain ⟨task, found, rfl⟩ := exists_of_life alive
    have named : q.task? id = some (q.objects task) := by rw [task?, found]; rfl
    have none := tidy (marked live) _ named
    refine Life.sole_retry ?_ ?_ reason (clock 0) (clock 1) (by rw [Life.retry_cancelled]; exact live)
    · intro budget
      exact (if_pos (show (q.objects task).attempts + 1 ≤ (q.objects task).spec.maxRetries from budget)).mp none
    · intro spent
      exact (if_neg (show ¬ (q.objects task).attempts + 1 ≤ (q.objects task).spec.maxRetries from spent)).mp none
  | cancel =>
    intro live
    cases live
  | expire _ late =>
    have none := sole.running leased late.1
    exact Life.sole_retry (fun _ => none) (fun _ => (Nat.add_eq_zero_iff.mp none).1) _ _ _

theorem handed_life {q : InMemoryTaskQueue} (rep : Represented q) {call : Call} {id : String}
    (handed : q.handed call = some id) :
    ∃ l m, q.life id = some l ∧ l.Settles m ∧ l.cancelled = false ∧ 0 < m.ready := by
  cases call with
  | reserve worker completed leaseSeconds clock =>
    rcases reserve_spec rep worker completed leaseSeconds clock with
        ⟨r, result, _⟩ | ⟨r, taskId, task, result, dispatched⟩
    · rw [handed_none result] at handed
      cases handed
    · rw [handed_some result dispatched, Option.some.injEq] at handed
      subst handed
      obtain ⟨m, settles, positive, _⟩ := dispatched.taken
      exact ⟨_, m, life_eq dispatched.found, settles, decide_eq_false dispatched.live, positive⟩
  | _ => cases handed

theorem handed_open {q : InMemoryTaskQueue} (rep : Represented q) (sole : Everywhere Life.Sole q) {call : Call}
    {id : String} (handed : q.handed call = some id) {task : TaskEnvelope} (named : q.task? id = some task) :
    task.status = .queued ∨ task.status = .retrying := by
  obtain ⟨l, m, alive, settles, live, positive⟩ := handed_life rep handed
  have open_ := (sole id l alive).open settles live positive
  obtain ⟨ref, found, rfl⟩ := exists_of_life alive
  rw [task?, found, Option.map_some, Option.some.injEq] at named
  rw [← named]
  exact open_

/-! ### Dispatches are paid for -/

/-- Along a run, with the ids handed out so far. -/
def AllPaid (past : List String) (q : InMemoryTaskQueue) : Prop :=
  (∀ id l, q.life id = some l → l.Paid (past.count id)) ∧ ∀ id, q.life id = none → past.count id = 0

theorem Effect.paid {q : InMemoryTaskQueue} {call : Call} {id : String} {l l' : Life}
    (effect : Effect q call id l l') {n : ℕ} (paid : l.Paid n) :
    l'.Paid (n + (q.handed call).toList.count id) := by
  have unpaid : q.handed call ≠ some id → (q.handed call).toList.count id = 0 := by
    intro unhanded
    rw [List.count_eq_zero, Option.mem_toList]
    exact unhanded
  cases effect.move with
  | settle settles unhanded =>
    rw [unpaid unhanded]
    exact paid.settles settles
  | dispatch _ handed _ settles positive =>
    rw [handed, Option.toList_some, List.count_singleton_self]
    exact (paid.settles settles).dispatch positive _ _
  | complete made =>
    subst made
    exact paid
  | retry made =>
    subst made
    exact paid.retry _ _ _
  | cancel made =>
    subst made
    exact paid
  | expire made =>
    subst made
    exact paid.retry _ _ _

theorem step_paid {past : List String} {q : InMemoryTaskQueue} (rep : Represented q) (paid : AllPaid past q)
    (call : Call) : AllPaid (past ++ (q.handed call).toList) (q.step call) := by
  have unhanded : ∀ id, q.life id = none → (q.handed call).toList.count id = 0 := by
    intro id unknown
    rw [List.count_eq_zero, Option.mem_toList]
    intro handed
    obtain ⟨l, _, alive, _⟩ := handed_life rep handed
    rw [unknown] at alive
    cases alive
  constructor
  · intro id l' alive'
    rw [List.count_append]
    cases alive : q.life id with
    | none =>
      rw [paid.2 id alive, unhanded id alive]
      exact (step_birth rep call alive alive').paid
    | some l =>
      by_cases issued : call.Issued q
      · obtain ⟨m, after, effect⟩ := (exec_stepped rep call issued).lives id l alive
        rw [step_issued issued] at alive'
        obtain rfl : m = l' := Option.some.inj (after.symm.trans alive')
        exact effect.paid (paid.1 id l alive)
      · have none : q.handed call = none := by
          cases call with
          | reserve => exact (issued trivial).elim
          | _ => rfl
        rw [step_refused issued, alive, Option.some.injEq] at alive'
        rw [none, ← alive']
        exact paid.1 id l alive
  · intro id unknown'
    cases alive : q.life id with
    | none => rw [List.count_append, paid.2 id alive, unhanded id alive]
    | some l =>
      obtain ⟨l', after, _⟩ := step_life rep call alive
      rw [unknown'] at after
      cases after

/-! ### Cancellation is for good -/

/-- Nothing takes the mark of a cancelled task away, and only its cancel sets it. -/
theorem Effect.cancelled {q : InMemoryTaskQueue} {call : Call} {id : String} {l l' : Life}
    (effect : Effect q call id l l') : l'.cancelled = true ↔ l.cancelled = true ∨ call = .cancel id := by
  cases call with
  | submit | submitMany =>
    rw [show l' = l from effect]
    simp
  | snapshot =>
    rw [Life.Settles.cancelled effect]
    simp
  | reserve worker completed leaseSeconds clock =>
    unfold Effect at effect
    dsimp only at effect
    split at effect
    · obtain ⟨_, m, settles, _, rfl⟩ := effect
      show m.cancelled = true ↔ _
      rw [settles.cancelled]
      simp
    · rw [effect.cancelled]
      simp
  | complete taskId status error =>
    rw [show l' = _ from effect]
    split <;> simp [Life.complete]
  | retry taskId reason clock =>
    rw [show l' = _ from effect]
    split <;> simp
  | cancel taskId =>
    rw [show l' = _ from effect]
    split
    · rename_i same
      simp [Life.cancel, same]
    · rename_i different
      simp [different]
  | requeueExpiredLeases clock =>
    obtain ⟨overdue, spared⟩ := effect
    by_cases late : l.Overdue (clock 0)
    · obtain ⟨k, rfl⟩ := overdue late
      simp
    · rw [spared late]
      simp

theorem life_cancelled {q : InMemoryTaskQueue} {id : String} {l : Life} (alive : q.life id = some l) :
    l.cancelled = true ↔ id ∈ q.cancelled := by
  obtain ⟨task, _, rfl⟩ := exists_of_life alive
  exact decide_eq_true_iff

theorem step_cancelled {q : InMemoryTaskQueue} (rep : Represented q) (call : Call) {id : String}
    (known : id ∈ q.tasks) : id ∈ (q.step call).cancelled ↔ id ∈ q.cancelled ∨ call = .cancel id := by
  obtain ⟨l, alive⟩ := Option.isSome_iff_exists.mp ((life_isSome q id).mpr known)
  by_cases issued : call.Issued q
  · obtain ⟨l', after, effect⟩ := (exec_stepped rep call issued).lives id l alive
    rw [step_issued issued, ← life_cancelled after, ← life_cancelled alive]
    exact effect.cancelled
  · rw [step_refused issued]
    have other : call ≠ .cancel id := by
      rintro rfl
      exact issued trivial
    exact (or_iff_left other).symm

theorem step_marked {q : InMemoryTaskQueue} (rep : Represented q) (call : Call) {id : String}
    (marked : id ∈ q.cancelled) : id ∈ (q.step call).cancelled :=
  (step_cancelled rep call (rep.cancelled id marked)).mpr (Or.inl marked)

theorem step_unmarked {q : InMemoryTaskQueue} (rep : Represented q) {call : Call} {id : String}
    (unmarked : id ∉ q.cancelled) (other : call ≠ .cancel id) : id ∉ (q.step call).cancelled := by
  intro marked
  by_cases known : id ∈ q.tasks
  · exact ((step_cancelled rep call known).mp marked).elim unmarked other
  · obtain ⟨l', alive'⟩ := Option.isSome_iff_exists.mp
      ((life_isSome _ id).mpr ((step_represented rep call).cancelled id marked))
    have unknown : q.life id = none := by
      rw [← Option.not_isSome_iff_eq_none, life_isSome]
      exact known
    have free := (step_birth rep call unknown alive').free.2.2
    rw [(life_cancelled alive').mpr marked] at free
    cases free

theorem handed_unmarked {q : InMemoryTaskQueue} (rep : Represented q) {call : Call} {id : String}
    (handed : q.handed call = some id) : id ∉ q.cancelled := by
  obtain ⟨l, _, alive, _, live, _⟩ := handed_life rep handed
  intro marked
  rw [(life_cancelled alive).mpr marked] at live
  cases live

theorem unleased_of_marked {q : InMemoryTaskQueue} (rep : Represented q) (leased : Everywhere Life.Leased q)
    {id : String} (marked : id ∈ q.cancelled) : id ∉ q.inflight := by
  intro held
  obtain ⟨l, alive⟩ := Option.isSome_iff_exists.mp ((life_isSome q id).mpr (rep.cancelled id marked))
  have free : l.leased = true := by
    obtain ⟨task, _, rfl⟩ := exists_of_life alive
    exact decide_eq_true held
  have live := ((leased id l alive).running free).2.1
  rw [(life_cancelled alive).mpr marked] at live
  cases live

end InMemoryTaskQueue

end TaskRunner
