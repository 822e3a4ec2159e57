import TaskRunner.Queue.Effect

/-!
Where an id is placed: its heap entries and its lease. A retry adds an entry without removing the ones
that wait, so it is the one call that can place a task twice.
-/

namespace TaskRunner
open Base

namespace InMemoryTaskQueue

def waiting (q : InMemoryTaskQueue) (id : String) : ℕ := readyCount q.ready id + delayedCount q.delayed id

/-- How often an id occurs in the ready heaps, the delayed heap and `_inflight` together. -/
def placements (q : InMemoryTaskQueue) (id : String) : ℕ := q.waiting id + if id ∈ q.inflight then 1 else 0

def SinglePlacement (q : InMemoryTaskQueue) : Prop := ∀ id, q.placements id ≤ 1

/-- A call that retries a task within its budget finds no entry waiting for it. -/
def RetriesUnplaced (q : InMemoryTaskQueue) : Call → Prop
  | .retry taskId _ _ => ∀ task ∈ q.task? taskId, task.attempts + 1 ≤ task.spec.maxRetries → q.waiting taskId = 0
  | _ => True

theorem placements_lifeOf (q : InMemoryTaskQueue) (id : String) (task : TaskRef) :
    (q.lifeOf id task).placed = q.placements id := by
  simp only [Life.placed, Life.waiting, lifeOf, placements, waiting, decide_eq_true_eq]

theorem placements_unknown {q : InMemoryTaskQueue} (rep : Represented q) {id : String} (unknown : q.life id = none) :
    q.placements id = 0 := by
  have absent : id ∉ q.tasks := by
    rw [← life_isSome, unknown]
    exact Bool.false_ne_true
  have idle : q.waiting id = 0 := Nat.eq_zero_of_not_pos fun waiting => absent (known_of_waiting rep waiting)
  have free : id ∉ q.inflight := fun leased => absent (rep.inflight_known leased)
  rw [placements, idle, if_neg free]

theorem single_iff_everywhere {q : InMemoryTaskQueue} (rep : Represented q) :
    SinglePlacement q ↔ Everywhere (fun l => l.placed ≤ 1) q := by
  constructor
  · intro single id l alive
    obtain ⟨task, _, rfl⟩ := exists_of_life alive
    rw [placements_lifeOf]
    exact single id
  · intro all id
    cases alive : q.life id with
    | none =>
      rw [placements_unknown rep alive]
      exact Nat.zero_le 1
    | some l =>
      have once := all id l alive
      obtain ⟨task, _, rfl⟩ := exists_of_life alive
      rw [placements_lifeOf] at once
      exact once

/-- The condition on a retry, told of the life it acts on. -/
theorem unplaced_iff {q : InMemoryTaskQueue} {id : String} {l : Life} (alive : q.life id = some l) (reason : String)
    (clock : Clock) : RetriesUnplaced q (.retry id reason clock) ↔ (l.retryable → l.waiting = 0) := by
  obtain ⟨task, found, rfl⟩ := exists_of_life alive
  have named : q.task? id = some (q.objects task) := by rw [task?, found]; rfl
  constructor
  · intro unplaced
    exact unplaced _ named
  · intro unplaced other known
    obtain rfl : q.objects task = other := Option.some.inj (named.symm.trans known)
    exact unplaced

/-- No call but a retry places a task once more. -/
theorem Effect.placed {q : InMemoryTaskQueue} {call : Call} {id : String} {l l' : Life}
    (effect : Effect q call id l l') (single : l.placed ≤ 1) (unplaced : RetriesUnplaced q call)
    (alive : q.life id = some l) : l'.placed ≤ 1 := by
  cases effect.move with
  | settle settles => exact settles.placed.trans single
  | @dispatch _ _ _ _ m _ _ _ settles positive =>
    rw [Life.dispatch_placed positive]
    exact (m.waiting_le_placed.trans settles.placed).trans single
  | complete => exact (Life.placed_of_waiting rfl).le.trans (l.waiting_le_placed.trans single)
  | @retry reason clock made =>
    subst made
    rw [Life.retry_placed]
    have apart := (unplaced_iff alive reason clock).mp unplaced
    have few := l.waiting_le_placed
    split
    · rename_i budget
      have none := apart budget
      omega
    · omega
  | cancel => exact (Life.placed_of_waiting rfl).le.trans (l.waiting_le_placed.trans single)
  | expire _ late =>
    rw [Life.retry_placed]
    -- the lease is the one placement there is
    have only : l.waiting + 1 ≤ 1 := by
      simp only [Life.placed, late.1, if_true] at single
      exact single
    split <;> omega

/-- From a state where every task is placed once at most, a call keeps it so exactly when it retries no
waiting task. -/
theorem single_step_iff {q : InMemoryTaskQueue} (rep : Represented q) (single : SinglePlacement q) (call : Call) :
    SinglePlacement (q.step call) ↔ RetriesUnplaced q call := by
  have before := (single_iff_everywhere rep).mp single
  have repNext := step_represented rep call
  constructor
  · intro next
    cases call with
    | retry taskId reason clock =>
      cases alive : q.life taskId with
      | none =>
        intro task known
        obtain ⟨ref, found, _⟩ := Option.map_eq_some_iff.mp known
        rw [life_eq found] at alive
        cases alive
      | some l =>
        rw [unplaced_iff alive]
        intro budget
        obtain ⟨l', after, effect⟩ := (exec_stepped rep (.retry taskId reason clock) trivial).lives taskId l alive
        have once := (single_iff_everywhere repNext).mp next taskId l' after
        rw [show l' = _ from effect, if_pos rfl, Life.retry_placed, if_pos budget] at once
        omega
    | _ => trivial
  · intro unplaced
    apply (single_iff_everywhere repNext).mpr
    refine before.step rep ?_ fun id l l' alive _ effect once => effect.placed once unplaced alive
    intro l newborn
    rw [Life.placed_of_waiting newborn.free.1, newborn.waiting]

/-- A task that `reserve` hands out has an entry, so under single placement nobody leases it. -/
theorem handed_unleased {q : InMemoryTaskQueue} (rep : Represented q) (single : SinglePlacement q) {call : Call}
    {id : String} (handed : q.handed call = some id) : id ∉ q.inflight := by
  cases call with
  | reserve worker completed leaseSeconds clock =>
    rcases reserve_spec rep worker completed leaseSeconds clock with
        ⟨r, result, _⟩ | ⟨r, taskId, task, result, dispatched⟩
    · rw [handed_none result] at handed
      cases handed
    · rw [handed_some result dispatched, Option.some.injEq] at handed
      subst handed
      obtain ⟨m, settles, positive, _⟩ := dispatched.taken
      intro leased
      have once := single taskId
      rw [placements, if_pos leased] at once
      have idle : (q.lifeOf taskId task).waiting = 0 := Nat.le_zero.mp (Nat.le_of_succ_le_succ once)
      have fewer := settles.waiting
      simp only [Life.waiting] at fewer idle
      omega
  | _ => cases handed

/-- An un-cancelled task the pass of `reserve` at `now` could find in a ready heap. -/
def Reservable (q : InMemoryTaskQueue) (now : ℚ) (id : String) (task : TaskEnvelope) : Prop :=
  id ∉ q.cancelled ∧
    (0 < readyCount q.ready id ∨ task.status ≠ .cancelled ∧ task.status ≠ .deadLettered ∧
      ∃ entry ∈ q.delayed, entry.taskId = id ∧ entry.availableAt ≤ now)

/-- A task `reserve` hands out is one it could find, accepted by the worker. -/
theorem handed_reservable {q : InMemoryTaskQueue} (rep : Represented q) {worker : WorkerInfo}
    {completed : Finset String} {leaseSeconds : ℚ} {clock : Clock} {id : String}
    (handed : q.handed (.reserve worker completed leaseSeconds clock) = some id) :
    ∃ task, q.task? id = some task ∧ worker.accepts task = true ∧ task.spec.dependsOn ⊆ completed ∧
      q.Reservable (clock 0) id task := by
  rcases reserve_spec rep worker completed leaseSeconds clock with
      ⟨r, result, _⟩ | ⟨r, taskId, task, result, dispatched⟩
  · rw [handed_none result] at handed
    cases handed
  · rw [handed_some result dispatched, Option.some.injEq] at handed
    subst handed
    have named : q.task? taskId = some (q.objects task) := by rw [task?, dispatched.found]; rfl
    refine ⟨_, named, dispatched.accepts, dispatched.dependencies, dispatched.live, ?_⟩
    by_cases closed : (q.objects task).status = .cancelled ∨ (q.objects task).status = .deadLettered
    · left
      obtain ⟨m, settles, positive, _⟩ := dispatched.taken
      exact Nat.lt_of_lt_of_le positive (settles.ready closed)
    · obtain ⟨open₁, open₂⟩ := not_or.mp closed
      exact dispatched.due.imp_right fun due => ⟨open₁, open₂, due⟩

theorem single_init (maxDepth : Int) : SinglePlacement (init maxDepth) := by
  intro id
  exact Nat.zero_le 1

/-- Every state of a run places every task once at most exactly when no retry of the run, manual or by a
failure report, names a task that still waits and has budget left; and then `reserve` never hands out a
leased task. -/
theorem single_placement_exact (maxDepth : Int) (calls : List Call) :
    (Machine.Along step (fun q call => SinglePlacement (q.step call)) (init maxDepth) calls ↔
      Machine.Along step RetriesUnplaced (init maxDepth) calls) ∧
    (Machine.Along step RetriesUnplaced (init maxDepth) calls →
      Machine.Along step (fun q call => ∀ id, q.handed call = some id → id ∉ q.inflight) (init maxDepth) calls) := by
  constructor
  · exact Machine.along_iff_along (I := Represented) (G := SinglePlacement)
      (fun _ call rep => step_represented rep call) (fun _ call rep single => single_step_iff rep single call)
      (represented_init maxDepth) (single_init maxDepth) calls
  · intro met
    exact Machine.along_of_invariant (I := fun q => Represented q ∧ SinglePlacement q) (C := RetriesUnplaced)
      (fun _ call held unplaced => ⟨step_represented held.1 call, (single_step_iff held.1 held.2 call).mpr unplaced⟩)
      (fun _ _ held _ _ handed => handed_unleased held.1 held.2 handed)
      ⟨represented_init maxDepth, single_init maxDepth⟩ met

/-! A task submitted and retried by hand at once waits twice, and two workers lease it together. -/

def sampleTask (id : String) : Submission where
  spec := { target := "jobs:run", retryBackoffSeconds := 0 }
  taskId := id
  createdAt := 0
  availableAt := 0

def sampleWorker (id : String) : WorkerInfo where
  workerId := id
  host := "localhost"
  pid := 1
  queues := ["default"]
  capacity := 1
  status := .idle
  startedAt := 0
  lastHeartbeat := 0

theorem single_placement_fails :
    ¬ SinglePlacement (runCalls 10 [.submit (sampleTask "a") (fun _ => 1), .retry "a" "manual retry" (fun _ => 2)]) ∧
    ∃ q, q = runCalls 10 [.submit (sampleTask "a") (fun _ => 1), .retry "a" "manual retry" (fun _ => 2),
        .reserve (sampleWorker "w1") ∅ 30 (fun _ => 3)] ∧ "a" ∈ q.inflight ∧
      q.handed (.reserve (sampleWorker "w2") ∅ 30 (fun _ => 4)) = some "a" := by
  constructor
  · intro single
    exact absurd (single "a") (by decide +kernel)
  · exact ⟨_, rfl, by decide +kernel, by decide +kernel⟩

end InMemoryTaskQueue

end TaskRunner
