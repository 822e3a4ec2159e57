import TaskRunner.Queue.Heaps
import TaskRunner.Scheduler.Projection

/-!
What the scheduler guarantees for each task over whole runs, whatever the reports, retries, lease expiries
and threads do.
-/

namespace TaskRunner
open Base InMemoryTaskQueue

namespace System

/-- A worker registers, a task is submitted and dispatched to it. -/
def sampleDispatch : List Event :=
  [.registerWorker (sampleWorker "w") 0, .submit (sampleTask "a") (fun _ => 1), .proceed (fun _ => 1),
    .reserveTask "w" 1, .reserveEnters 0 1, .reservePass 0 (fun _ => 2) 1, .reserveReturns 0, .proceed (fun _ => 2)]

def sampleResult (status : TaskStatus) (finishedAt : ℚ) : TaskResult where
  taskId := "a"
  workerId := "w"
  status := status
  startedAt := 3
  finishedAt := finishedAt

def sampleReport (status : TaskStatus) (now : ℚ) : List Event :=
  [.reportResult (sampleResult status now), .proceed (fun _ => now), .proceed (fun _ => now), .proceed (fun _ => now)]

theorem exists_task (q : InMemoryTaskQueue) (id : String) (known : (q.task? id).isSome = true) :
    ∃ task, q.task? id = some task := Option.isSome_iff_exists.mp known

def cancels (id : String) : Call → Bool
  | .cancel taskId => taskId = id
  | _ => false

theorem notMem_cancel {id : String} {calls : List Call} (none : calls.any (cancels id) = false) :
    .cancel id ∉ calls := by
  intro member
  have found : calls.any (cancels id) = true := List.any_eq_true.mpr ⟨_, member, decide_eq_true rfl⟩
  rw [none] at found
  cases found

theorem unmarked_of_uncancelled (config : Settings) (events : List Event) {id : String}
    (uncancelled : .cancel id ∉ callsOf config events) : id ∉ (after config events).engine.queue.cancelled := by
  rw [after_queue]
  have run : ∀ (calls : List Call) (q : InMemoryTaskQueue), .cancel id ∉ calls → Represented q → id ∉ q.cancelled →
      id ∉ (Machine.run InMemoryTaskQueue.step q calls).cancelled := by
    intro calls
    induction calls with
    | nil => exact fun _ _ _ unmarked => unmarked
    | cons call rest ih =>
      intro q absent rep unmarked
      obtain ⟨other, later⟩ := not_or.mp fun h => absent (List.mem_cons.mpr h)
      exact ih (q.step call) later (step_represented rep call) (step_unmarked rep unmarked (Ne.symm other))
  exact run _ _ uncancelled (represented_init _) (Finset.notMem_empty id)

/-- In every reachable state the heaps are heaps, what they and the tables hold belongs to known tasks, and so nothing
inside a `reserve` or a lease expiry raises. -/
theorem containers_sound (config : Settings) (events : List Event) :
    let q := (after config events).engine.queue
    Represented q ∧ Heaped q ∧
      (∀ worker completed leaseSeconds clock, ∃ outcome,
        (q.reserve worker completed leaseSeconds clock).1 = .ok outcome) ∧
      ∀ clock, ∃ refs, (q.requeueExpiredLeases clock).1 = .ok refs := by
  intro q
  have rep : Represented q := after_represented config events
  have heaped : Heaped q := by
    rw [show q = _ from after_queue config events]
    exact runCalls_heaped config.maxQueueDepth (callsOf config events)
  refine ⟨rep, heaped, fun worker completed leaseSeconds clock => ?_, fun clock => ?_⟩
  · rcases reserve_spec rep worker completed leaseSeconds clock with ⟨r, result, _⟩ | ⟨r, id, task, result, _⟩
    · exact ⟨none, by rw [result]⟩
    · exact ⟨some task, by rw [result]⟩
  · obtain ⟨r, result, _⟩ := requeue_spec rep clock
    exact ⟨_, by rw [result]⟩

/-- A task never cancelled is finished, leased or queued, and never two of these. -/
theorem no_task_lost (config : Settings) (events : List Event) (id : String) (task : TaskEnvelope)
    (known : (after config events).engine.queue.task? id = some task)
    (uncancelled : .cancel id ∉ callsOf config events) :
    ExactlyOne ((after config events).engine.queue.IsFinished id task)
      ((after config events).engine.queue.IsLeased id task) ((after config events).engine.queue.IsQueued id task) :=
  exactly_one_situation (after_represented config events) (after_everywhere Life.situated_stable config events) known
    (unmarked_of_uncancelled config events uncancelled)

theorem no_task_lost_sample :
    ∃ task, (after {} sampleDispatch).engine.queue.task? "a" = some task ∧
      ExactlyOne ((after {} sampleDispatch).engine.queue.IsFinished "a" task)
        ((after {} sampleDispatch).engine.queue.IsLeased "a" task)
        ((after {} sampleDispatch).engine.queue.IsQueued "a" task) := by
  obtain ⟨task, known⟩ := exists_task (after {} sampleDispatch).engine.queue "a" (by decide +kernel)
  exact ⟨task, known, no_task_lost {} sampleDispatch "a" task known (notMem_cancel (by decide +kernel))⟩

/-- In a run whose reports and retries leave no stray entry, only queued and retrying tasks are dispatched. -/
theorem dispatched_open_when (config : Settings) (events : List Event)
    (tidy : Machine.Along step (fun s event => ∀ call ∈ s.queueCall event, LeavesNoStray s.engine.queue call)
      (init config) events) :
    Machine.Along step (fun s event => ∀ id ∈ s.dispatched event, ∀ task ∈ s.engine.queue.task? id,
      task.status = .queued ∨ task.status = .retrying) (init config) events := by
  refine Machine.along_of_invariant
    (I := fun s : System => Represented s.engine.queue ∧ Everywhere Life.Leased s.engine.queue ∧
      Everywhere Life.Sole s.engine.queue) ?_ ?_
    ⟨represented_init _, everywhere_init _ _, everywhere_init _ _⟩ tidy
  · intro s event given left
    obtain ⟨rep, leased, sole⟩ := given
    refine step_keeps (I := fun q => Represented q ∧ Everywhere Life.Leased q ∧ Everywhere Life.Sole q)
      ⟨rep, leased, sole⟩ fun call made => ?_
    refine ⟨step_represented rep call, InMemoryTaskQueue.step_everywhere Life.leased_stable rep leased call, ?_⟩
    exact sole.step rep (fun l newborn => newborn.sole) fun id l l' alive issued effect once =>
      effect.sole issued (left call made) alive (leased id l alive) once
  · intro s event given _ id dispatched task named
    obtain ⟨rep, _, sole⟩ := given
    obtain ⟨call, _, handed⟩ := Option.bind_eq_some_iff.mp dispatched
    exact handed_open rep sole handed named

theorem dispatched_open_sample :
    Machine.Along step (fun s event => ∀ id ∈ s.dispatched event, ∀ task ∈ s.engine.queue.task? id,
      task.status = .queued ∨ task.status = .retrying) (init {}) (sampleDispatch ++ sampleReport .succeeded 4) :=
  dispatched_open_when {} (sampleDispatch ++ sampleReport .succeeded 4) (by decide +kernel)

/-- The lease of a slow task expires, its worker reports success all the same, and the entry of the retry is
dispatched. -/
theorem dispatched_open_fails :
    ¬ Machine.Along step (fun s event => ∀ id ∈ s.dispatched event, ∀ task ∈ s.engine.queue.task? id,
      task.status = .queued ∨ task.status = .retrying) (init {})
      (sampleDispatch ++ [.requeueExpired (fun _ => 40)] ++ sampleReport .succeeded 41 ++
        [.reserveTask "w" 1, .reserveEnters 1 42, .reservePass 1 (fun _ => 42) 42]) := by
  decide +kernel

/-- No task is dispatched more than once for its submission and once for each retry it allows. -/
theorem dispatches_bounded (config : Settings) (events : List Event) (id : String) (task : TaskEnvelope)
    (known : (after config events).engine.queue.task? id = some task) :
    0 ≤ task.spec.maxRetries ∧
      ((Machine.collect step (fun s event => (s.dispatched event).toList) (init config) events).count id : Int) ≤
        task.spec.maxRetries + 1 := by
  have paid : Represented (after config events).engine.queue ∧
      AllPaid ([] ++ Machine.collect step (fun s event => (s.dispatched event).toList) (init config) events)
        (after config events).engine.queue := by
    refine Machine.history_invariant
      (J := fun past (s : System) => Represented s.engine.queue ∧ AllPaid past s.engine.queue) ?_ ?_ events
    · intro past s event given
      obtain ⟨rep, paid⟩ := given
      rw [step_queue, queueStep, dispatched]
      cases made : s.queueCall event with
      | none =>
        rw [Option.bind_none, Option.toList_none, List.append_nil]
        exact ⟨rep, paid⟩
      | some call =>
        rw [Option.bind_some]
        exact ⟨step_represented rep call, step_paid rep paid call⟩
    · refine ⟨represented_init _, ?_, fun _ _ => rfl⟩
      intro id l alive
      cases alive
  obtain ⟨ref, found, rfl⟩ := Option.map_eq_some_iff.mp known
  obtain ⟨bound, nonneg⟩ := paid.2.1 id _ (life_eq found)
  rw [List.nil_append] at bound
  refine ⟨nonneg, ?_⟩
  have capped := min_le_right ((after config events).engine.queue.objects ref).attempts
    ((after config events).engine.queue.objects ref).spec.maxRetries
  simp only [lifeOf] at bound
  omega

theorem dispatches_bounded_sample :
    ∃ task, (after {} (sampleDispatch ++ sampleReport .failed 4)).engine.queue.task? "a" = some task ∧
      0 ≤ task.spec.maxRetries ∧
      ((Machine.collect step (fun s event => (s.dispatched event).toList) (init {})
        (sampleDispatch ++ sampleReport .failed 4)).count "a" : Int) ≤ task.spec.maxRetries + 1 := by
  obtain ⟨task, known⟩ := exists_task (after {} (sampleDispatch ++ sampleReport .failed 4)).engine.queue "a"
    (by decide +kernel)
  exact ⟨task, known, dispatches_bounded {} _ "a" task known⟩

/-- From its cancellation on, a task is neither handed out nor leased, even when it is reported or retried. -/
theorem cancelled_for_good (config : Settings) (before later : List Event) (id : String)
    (free : (after config before).idle = true) (known : id ∈ (after config before).engine.queue.tasks) :
    id ∉ ((after config before).step (.cancelTask id)).engine.queue.inflight ∧
      Machine.Along step (fun s event => s.dispatched event ≠ some id ∧ id ∉ (s.step event).engine.queue.inflight)
        ((after config before).step (.cancelTask id)) later := by
  let I : System → Prop := fun s => Represented s.engine.queue ∧ Everywhere Life.Leased s.engine.queue ∧
    id ∈ s.engine.queue.cancelled
  have start : I ((after config before).step (.cancelTask id)) := by
    have rep := after_represented config before
    have leased := after_everywhere Life.leased_stable config before
    have marked : id ∈ ((after config before).engine.queue.step (.cancel id)).cancelled :=
      (step_cancelled rep _ known).mpr (Or.inr rfl)
    have made : (after config before).queueCall (.cancelTask id) = some (.cancel id) := if_pos free
    show Represented _ ∧ Everywhere Life.Leased _ ∧ id ∈ _
    rw [step_queue, queueStep, made]
    exact ⟨step_represented rep _, InMemoryTaskQueue.step_everywhere Life.leased_stable rep leased _, marked⟩
  have preserve : ∀ s event, I s → I (s.step event) := by
    intro s event given
    obtain ⟨rep, leased, marked⟩ := given
    exact step_keeps (I := fun q => Represented q ∧ Everywhere Life.Leased q ∧ id ∈ q.cancelled)
      ⟨rep, leased, marked⟩ fun call _ => ⟨step_represented rep call,
        InMemoryTaskQueue.step_everywhere Life.leased_stable rep leased call, step_marked rep call marked⟩
  refine ⟨unleased_of_marked start.1 start.2.1 start.2.2, ?_⟩
  refine Machine.along_of_invariant (I := I) (C := fun _ _ => True) (fun s event held _ => preserve s event held) ?_
    start (Machine.along_true _ _)
  intro s event held _
  constructor
  · intro dispatched
    obtain ⟨call, _, handed⟩ := Option.bind_eq_some_iff.mp dispatched
    exact handed_unmarked held.1 handed held.2.2
  · obtain ⟨rep, leased, marked⟩ := preserve s event held
    exact unleased_of_marked rep leased marked

theorem cancelled_for_good_sample :
    Machine.Along step (fun s event => s.dispatched event ≠ some "a" ∧ "a" ∉ (s.step event).engine.queue.inflight)
      ((after {} sampleDispatch).step (.cancelTask "a"))
      (.proceed (fun _ => 3) :: sampleReport .failed 4 ++
        [.reserveTask "w" 1, .reserveEnters 1 5, .reservePass 1 (fun _ => 5) 5]) :=
  (cancelled_for_good {} sampleDispatch _ "a" (by decide +kernel) (by decide +kernel)).2

end System

end TaskRunner
