import TaskRunner.Queue.Backpressure

/-!
The counts of `snapshot` against the statuses. The snapshot counts entries and the depth counts tasks, so they agree
as long as every task that is not terminal is placed once and no terminal task is placed at all.
-/

namespace TaskRunner
open Base

namespace InMemoryTaskQueue

/-! ### One task -/

/-- A task is placed once until it is terminal, and a dead letter is a task that is dead-lettered. -/
structure Balanced (l : Life) : Prop where
  placed : l.placed = if terminal l.task.status then 0 else 1
  dead : l.dead = true ↔ l.task.status = .deadLettered
  marked : l.cancelled = true → terminal l.task.status = true
  spent : l.dead = true → l.task.spec.maxRetries < l.task.attempts

/-- No report and no cancellation names a task that waits or is dead-lettered, no retry a task that waits or one that
was cancelled and has budget left. -/
def KeepsAccount (q : InMemoryTaskQueue) : Call → Prop
  | .complete taskId _ _ | .cancel taskId =>
    ∀ task ∈ q.task? taskId, q.waiting taskId = 0 ∧ task.status ≠ .deadLettered
  | .retry taskId _ _ => ∀ task ∈ q.task? taskId, q.waiting taskId = 0 ∧
      (task.attempts + 1 ≤ task.spec.maxRetries → taskId ∉ q.cancelled)
  | _ => True

instance (q : InMemoryTaskQueue) (call : Call) : Decidable (KeepsAccount q call) :=
  match call with
  | .complete taskId _ _ | .cancel taskId =>
    inferInstanceAs (Decidable (∀ task ∈ q.task? taskId, q.waiting taskId = 0 ∧ task.status ≠ .deadLettered))
  | .retry taskId _ _ => inferInstanceAs (Decidable (∀ task ∈ q.task? taskId, q.waiting taskId = 0 ∧
      (task.attempts + 1 ≤ task.spec.maxRetries → taskId ∉ q.cancelled)))
  | .submit .. | .submitMany .. | .reserve .. | .requeueExpiredLeases _ | .snapshot _ =>
    inferInstanceAs (Decidable True)

variable {l m : Life}

theorem Balanced.newborn (newborn : l.Newborn) : Balanced l := by
  refine ⟨?_, ?_, ?_, ?_⟩
  · rw [Life.placed_of_waiting newborn.free.1, newborn.waiting, newborn.status]
    rfl
  · rw [newborn.free.2.1, newborn.status]
    simp
  · rw [newborn.free.2.2]
    intro marked
    cases marked
  · rw [newborn.free.2.1]
    intro dead
    cases dead

theorem Balanced.settles (balanced : Balanced l) (settles : l.Settles m) : Balanced m := by
  refine ⟨?_, ?_, ?_, ?_⟩
  · rw [settles.task]
    have fewer := settles.placed
    have before := balanced.placed
    by_cases closed : terminal l.task.status = true
    · rw [if_pos closed] at before ⊢
      omega
    · -- an open task is not marked cancelled, so it keeps its entries
      have live : l.cancelled = false := Bool.eq_false_iff.mpr fun marked => closed (balanced.marked marked)
      have open₁ : l.task.status ≠ .cancelled := fun same => closed (by rw [same]; rfl)
      have open₂ : l.task.status ≠ .deadLettered := fun same => closed (by rw [same]; rfl)
      have kept := settles.kept live open₁ open₂
      rw [← before]
      simp only [Life.placed, kept, settles.leased]
  · rw [settles.dead, settles.task]
    exact balanced.dead
  · rw [settles.cancelled, settles.task]
    exact balanced.marked
  · rw [settles.dead, settles.task]
    exact balanced.spent

theorem Balanced.dispatch (balanced : Balanced l) (live : l.cancelled = false) (positive : 0 < l.ready)
    (workerId : String) (deadline : ℚ) : Balanced (l.dispatch workerId deadline) := by
  have before := balanced.placed
  have some : 0 < l.waiting := Nat.add_pos_left positive _
  have few := l.waiting_le_placed
  by_cases closed : terminal l.task.status = true
  · rw [if_pos closed] at before
    omega
  · rw [if_neg closed] at before
    refine ⟨?_, ?_, ?_, balanced.spent⟩
    · rw [Life.dispatch_placed positive]
      show l.waiting = 1
      omega
    · refine iff_of_false ?_ TaskStatus.noConfusion
      intro dead
      exact closed (by rw [balanced.dead.mp dead]; rfl)
    · intro marked
      rw [show l.cancelled = true from marked] at live
      cases live

/-- The task is closed: nothing of it waits and it was no dead letter. -/
theorem Balanced.close (balanced : Balanced l) (idle : l.waiting = 0) (buried : l.task.status ≠ .deadLettered)
    (same : m.waiting = l.waiting) (free : m.leased = false) (dead : m.dead = l.dead)
    (final : m.task.status = .succeeded ∨ m.task.status = .cancelled) : Balanced m := by
  have closed : terminal m.task.status = true := by rcases final with h | h <;> rw [h] <;> rfl
  have alive : l.dead ≠ true := fun h => buried (balanced.dead.mp h)
  refine ⟨?_, ?_, fun _ => closed, ?_⟩
  · rw [if_pos closed, Life.placed_of_waiting free, same, idle]
  · rw [dead]
    apply iff_of_false alive
    rcases final with h | h <;> rw [h] <;> exact TaskStatus.noConfusion
  · rw [dead]
    exact fun h => (alive h).elim

theorem Balanced.retry (balanced : Balanced l) (idle : l.waiting = 0) (live : l.retryable → l.cancelled = false)
    (reason : String) (start now : ℚ) : Balanced (l.retry reason start now) := by
  have placed := Life.retry_placed l reason start now
  have status := Life.retry_status l reason start now
  rw [idle, Nat.zero_add] at placed
  by_cases budget : l.retryable
  · rw [if_pos budget] at placed status
    have alive : (l.retry reason start now).dead = l.dead := by
      unfold Life.retry
      dsimp only
      rw [if_pos budget]
    have fresh : l.dead ≠ true := by
      intro dead
      have exceeded := balanced.spent dead
      have within : l.task.attempts + 1 ≤ l.task.spec.maxRetries := budget
      omega
    refine ⟨?_, ?_, ?_, ?_⟩
    · rw [placed, status]
      rfl
    · rw [alive, status]
      exact iff_of_false fresh TaskStatus.noConfusion
    · rw [Life.retry_cancelled, live budget]
      intro marked
      cases marked
    · rw [alive]
      exact fun dead => (fresh dead).elim
  · rw [if_neg budget] at placed status
    have dead : (l.retry reason start now).dead = true := by
      unfold Life.retry
      dsimp only
      rw [if_neg budget]
    refine ⟨?_, iff_of_true dead status, ?_, ?_⟩
    · rw [placed, status]
      rfl
    · rw [status]
      exact fun _ => rfl
    · rw [Life.retry_task_spec, Life.retry_attempts]
      exact fun _ => not_le.mp budget

theorem Effect.balanced {q : InMemoryTaskQueue} {call : Call} {id : String} {l l' : Life} (issued : call.Issued q)
    (effect : Effect q call id l l') (keeps : KeepsAccount q call) (alive : q.life id = some l) (leased : l.Leased)
    (balanced : Balanced l) : Balanced l' := by
  have named := task?_of_life alive
  have waiting : q.waiting id = l.waiting := by
    obtain ⟨task, _, rfl⟩ := exists_of_life alive
    rfl
  cases effect.move with
  | settle settles => exact balanced.settles settles
  | dispatch _ _ live settles positive =>
    exact (balanced.settles settles).dispatch (settles.cancelled.trans live) positive _ _
  | complete made =>
    subst made
    obtain ⟨idle, buried⟩ := keeps l.task named
    exact balanced.close (waiting.symm.trans idle) buried rfl rfl rfl issued
  | retry made =>
    subst made
    obtain ⟨idle, live⟩ := keeps l.task named
    refine balanced.retry (waiting.symm.trans idle) (fun budget => ?_) _ _ _
    obtain ⟨task, _, rfl⟩ := exists_of_life alive
    exact decide_eq_false (live budget)
  | cancel made =>
    subst made
    obtain ⟨idle, buried⟩ := keeps l.task named
    exact balanced.close (waiting.symm.trans idle) buried rfl rfl rfl (Or.inr rfl)
  | expire _ late =>
    obtain ⟨running, live, _⟩ := leased.running late.1
    have once := balanced.placed
    rw [running] at once
    have only : l.waiting + 1 = 1 := by
      simp only [Life.placed, late.1, if_true] at once
      exact once
    exact balanced.retry (by omega) (fun _ => live) _ _ _

/-! ### All tasks -/

theorem sum_countP {α : Type*} (f : α → String) (ids : Finset String) {items : List α} (known : ∀ a ∈ items, f a ∈ ids) :
    ∑ id ∈ ids, items.countP (fun a => f a = id) = items.length := by
  have covered : ∀ id ∈ (Multiset.ofList (items.map f)), id ∈ ids := by
    intro id member
    obtain ⟨a, there, rfl⟩ := List.mem_map.mp (Multiset.mem_coe.mp member)
    exact known a there
  have total := Multiset.sum_count_eq_card covered
  rw [Multiset.coe_card, List.length_map] at total
  rw [← total]
  apply Finset.sum_congr rfl
  intro id _
  rw [Multiset.coe_count, List.count, List.countP_map]
  exact List.countP_congr fun a _ => by simp

theorem readyCount_flatten (ready : Dict String (List ReadyEntry)) (id : String) :
    readyCount ready id = ready.values.flatten.countP fun entry => entry.taskId = id := by
  rw [List.countP_flatten]
  rfl

/-- The entries of all heaps and the leases, one id after another. -/
theorem sum_placements {q : InMemoryTaskQueue} (rep : Represented q) :
    ∑ id ∈ q.tasks.keys.toFinset, q.placements id =
      (q.ready.values.map List.length).sum + q.delayed.length + q.inflight.values.length := by
  have known : ∀ entry ∈ q.ready.values.flatten, entry.taskId ∈ q.tasks.keys.toFinset := by
    intro entry member
    obtain ⟨entries, listed, inside⟩ := List.mem_flatten.mp member
    rw [q.ready.values_eq []] at listed
    obtain ⟨queueName, _, rfl⟩ := List.mem_map.mp listed
    obtain ⟨task, found, _⟩ := rep.ready queueName entry inside
    exact List.mem_toFinset.mpr (Dict.mem_of_get? found)
  have waits : ∀ entry ∈ q.delayed, entry.taskId ∈ q.tasks.keys.toFinset := fun entry member =>
    List.mem_toFinset.mpr (rep.delayed entry member)
  have leased : ∀ id ∈ q.inflight.keys, id ∈ q.tasks.keys.toFinset := fun id member =>
    List.mem_toFinset.mpr (rep.inflight_known member)
  have leases : ∑ id ∈ q.tasks.keys.toFinset, (if id ∈ q.inflight then 1 else 0) = q.inflight.values.length := by
    rw [← Finset.card_filter]
    have inside : (q.tasks.keys.toFinset.filter fun id => id ∈ q.inflight) = q.inflight.keys.toFinset := by
      ext id
      rw [Finset.mem_filter, List.mem_toFinset (l := q.inflight.keys)]
      exact ⟨And.right, fun member => ⟨leased id member, member⟩⟩
    rw [inside, List.toFinset_card_of_nodup q.inflight.nodup_keys, Dict.keys, Dict.values, List.length_map,
      List.length_map]
  simp only [placements, waiting, Finset.sum_add_distrib, leases, readyCount_flatten, delayedCount]
  rw [sum_countP _ _ known, sum_countP _ _ waits, List.length_flatten]

theorem everywhere_balanced {q : InMemoryTaskQueue} (rep : Represented q) (leased : Everywhere Life.Leased q)
    (balanced : Everywhere Balanced q) {call : Call} (keeps : KeepsAccount q call) : Everywhere Balanced (q.step call) :=
  balanced.step rep (fun _ newborn => .newborn newborn) fun id l _ alive issued effect held =>
    effect.balanced issued keeps alive (leased id l alive) held

theorem runCalls_balanced (maxDepth : Int) (calls : List Call)
    (keeps : Machine.Along step KeepsAccount (init maxDepth) calls) : Everywhere Balanced (runCalls maxDepth calls) := by
  let I : InMemoryTaskQueue → Prop := fun q =>
    Represented q ∧ Everywhere Life.Leased q ∧ Everywhere Balanced q
  have preserve : ∀ q call, I q → KeepsAccount q call → I (q.step call) := by
    intro q call given kept
    obtain ⟨rep, leased, balanced⟩ := given
    exact ⟨step_represented rep call, step_everywhere Life.leased_stable rep leased call,
      everywhere_balanced rep leased balanced kept⟩
  have start : I (init maxDepth) :=
    ⟨represented_init maxDepth, everywhere_init _ maxDepth, everywhere_init _ maxDepth⟩
  exact (Machine.run_invariant_along preserve start keeps).2.2

/-- The entries and leases of balanced tasks are as many as the tasks that are not terminal. -/
theorem placements_depth {q : InMemoryTaskQueue} (rep : Represented q) (balanced : Everywhere Balanced q) :
    (((q.ready.values.map List.length).sum + q.delayed.length + q.inflight.values.length : ℕ) : Int) = q.depth := by
  rw [← sum_placements rep, depth_eq, Finset.card_eq_sum_ones, ← Finset.sum_filter_add_sum_filter_not
    q.tasks.keys.toFinset (fun id => q.active id = true)]
  have once : ∀ id ∈ q.activeIds, q.placements id = 1 := by
    intro id member
    obtain ⟨l, alive, open_⟩ := mem_activeIds.mp member
    have placed := (balanced id l alive).placed
    obtain ⟨task, _, rfl⟩ := exists_of_life alive
    rw [placements_lifeOf, open_] at placed
    exact placed
  have never : ∀ id ∈ q.tasks.keys.toFinset.filter (fun id => ¬ q.active id = true), q.placements id = 0 := by
    intro id member
    obtain ⟨known, inactive⟩ := Finset.mem_filter.mp member
    obtain ⟨l, alive⟩ := Option.isSome_iff_exists.mp ((life_isSome q id).mpr (List.mem_toFinset.mp known))
    have placed := (balanced id l alive).placed
    have closed : terminal l.task.status = true := by
      rw [active, alive] at inactive
      simpa using inactive
    obtain ⟨task, _, rfl⟩ := exists_of_life alive
    rw [placements_lifeOf, closed] at placed
    exact placed
  rw [Finset.sum_congr rfl never, Finset.sum_const_zero, Nat.add_zero]
  exact congrArg Nat.cast (Finset.sum_congr rfl once)

theorem deadLetter_count {q : InMemoryTaskQueue} (rep : Represented q) (balanced : Everywhere Balanced q) :
    q.deadLetter.values.length =
      (q.tasks.values.filter fun task => (q.objects task).status = .deadLettered).length := by
  have ids : q.deadLetter.keys.toFinset = q.idsWith fun status => status = .deadLettered := by
    ext id
    rw [List.mem_toFinset, mem_idsWith]
    constructor
    · intro member
      obtain ⟨task, buried⟩ := Dict.exists_of_mem (d := q.deadLetter) member
      have alive := life_eq (rep.deadLetter id task buried)
      exact ⟨_, alive, decide_eq_true ((balanced id _ alive).dead.mp (decide_eq_true member))⟩
    · intro given
      obtain ⟨l, alive, status⟩ := given
      have dead := (balanced id l alive).dead.mpr (of_decide_eq_true status)
      obtain ⟨task, _, rfl⟩ := exists_of_life alive
      exact of_decide_eq_true dead
  have count := card_idsWith q fun status => status = .deadLettered
  rw [← ids, List.toFinset_card_of_nodup q.deadLetter.nodup_keys, Dict.keys, List.length_map] at count
  rw [Dict.values, List.length_map]
  exact count.symm

theorem snapshot_counts {q : InMemoryTaskQueue} (rep : Represented q) (balanced : Everywhere Balanced q) (now : ℚ) :
    (((q.snapshot now).1.queued + (q.snapshot now).1.delayed + (q.snapshot now).1.inflight : ℕ) : Int) = q.depth ∧
      (q.snapshot now).1.deadLettered =
        (q.tasks.values.filter fun task => (q.objects task).status = .deadLettered).length ∧
      (q.snapshot now).1.pressure = (q.depth : ℚ) / ((max 1 q.maxDepth : Int) : ℚ) := by
  obtain ⟨repPromoted, settled⟩ := promote_settled rep now
  have kept : Everywhere Balanced (q.promoteDelayedLocked now) := by
    intro id m alive
    have known := (life_isSome _ id).mp (Option.isSome_of_eq_some alive)
    rw [settled.tasks] at known
    obtain ⟨l, before⟩ := Option.isSome_iff_exists.mp ((life_isSome q id).mpr known)
    obtain ⟨m', after, settles⟩ := settled.life before
    obtain rfl : m' = m := Option.some.inj (after.symm.trans alive)
    exact (balanced id l before).settles settles
  have depth : (q.promoteDelayedLocked now).depth = q.depth := by
    unfold InMemoryTaskQueue.depth
    rw [settled.tasks, settled.objects]
  have total := placements_depth repPromoted kept
  have dead := deadLetter_count repPromoted kept
  rw [depth] at total
  rw [settled.tasks, settled.objects] at dead
  refine ⟨total, dead, ?_⟩
  show ((_ : ℕ) : ℚ) / ((max 1 (q.promoteDelayedLocked now).maxDepth : Int) : ℚ) = _
  rw [settled.maxDepth, ← total]
  rfl

end InMemoryTaskQueue

end TaskRunner
