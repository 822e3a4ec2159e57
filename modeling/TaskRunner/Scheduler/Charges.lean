import TaskRunner.Queue.Charges
import TaskRunner.Scheduler.Guarantees

/-!
The failed attempts of a whole run: what raises `attempts`, who ends in the dead-letter table, and how often a task is
handed out for them.
-/

namespace TaskRunner
open Base InMemoryTaskQueue

namespace System

/-- The ids an event charges with a failed attempt: by an operator's retry, by the report of a failure, and by each lease
that is found expired. -/
def charges (s : System) : Event → List String
  | .retryTask taskId _ => if s.idle = true ∧ taskId ∈ s.engine.queue.tasks then [taskId] else []
  | .proceed _ =>
    match s.frame with
    | .settleReport result =>
      if result.status ≠ .succeeded ∧ result.status ≠ .cancelled ∧ result.taskId ∈ s.engine.queue.tasks
      then [result.taskId] else []
    | _ => []
  | .requeueExpired clock =>
    (s.engine.queue.inflight.entries.filter fun lease => s.engine.queue.expired (clock 0) lease.2).map Prod.fst
  | _ => []

/-- The ids charged along a run. -/
def chargesOf (config : Settings) (events : List Event) : List String :=
  Machine.collect step charges (init config) events

/-- The ids dispatched along a run. -/
def dispatchedOf (config : Settings) (events : List Event) : List String :=
  Machine.collect step (fun s event => (s.dispatched event).toList) (init config) events

theorem charges_report (s : System) (result : TaskResult) (clock : Clock) :
    s.engine.queue.charged (reportCall result clock) =
      if result.status ≠ .succeeded ∧ result.status ≠ .cancelled ∧ result.taskId ∈ s.engine.queue.tasks
      then [result.taskId] else [] := by
  unfold reportCall
  by_cases succeeded : result.status = .succeeded
  · rw [if_pos succeeded, if_neg fun given => given.1 succeeded]
    rfl
  · by_cases cancelled : result.status = .cancelled
    · rw [if_neg succeeded, if_pos cancelled, if_neg fun given => given.2.1 cancelled]
      rfl
    · rw [if_neg succeeded, if_neg cancelled, charged]
      simp only [ne_eq, succeeded, cancelled, not_false_iff, true_and]

/-- What an event charges is what its call into the queue charges. -/
theorem charges_eq (s : System) (event : Event) :
    s.charges event = Machine.collect InMemoryTaskQueue.step charged s.engine.queue (s.queueCalls event) := by
  have called : ∀ made : Option Call, Machine.collect InMemoryTaskQueue.step charged s.engine.queue made.toList =
      (made.map s.engine.queue.charged).getD [] := by
    intro made
    cases made with
    | none => rfl
    | some call => exact List.append_nil _
  rw [queueCalls, called]
  cases event with
  | submit | submitBatch =>
    simp only [charges, queueCall]
    split
    · first | rfl | (split <;> rfl)
    · first | rfl | (split <;> rfl)
  | reservePass call clock monotonic =>
    simp only [charges, queueCall]
    split <;> rfl
  | cancelTask | queueSnapshot =>
    simp only [charges, queueCall]
    split <;> rfl
  | retryTask taskId clock =>
    simp only [charges, queueCall]
    by_cases free : s.idle = true
    · rw [if_pos free, Option.map_some, Option.getD_some, charged]
      simp only [free, true_and]
    · rw [if_neg free, if_neg fun given => free given.1]
      rfl
  | proceed clock =>
    simp only [charges, queueCall]
    cases s.frame with
    | settleReport result => exact (s.charges_report result clock).symm
    | _ => rfl
  | _ => rfl

theorem chargesOf_eq (config : Settings) (events : List Event) :
    chargesOf config events =
      Machine.collect InMemoryTaskQueue.step charged (InMemoryTaskQueue.init config.maxQueueDepth) (callsOf config events) := by
  have each : _ = Machine.collect step
      (fun s event => Machine.collect InMemoryTaskQueue.step charged s.engine.queue (s.queueCalls event)) (init config) events :=
    Machine.collect_simulates (a := fun s : System => s.engine.queue) step_simulates (init config) events
  refine Eq.trans ?_ each.symm
  exact Machine.collect_congr (I := fun _ => True) (fun _ _ _ => trivial) (fun s event _ => s.charges_eq event) trivial events

/-- The task owes what the run charged it. -/
theorem after_owes (config : Settings) (events : List Event) : AllOwe (chargesOf config events) (after config events).engine.queue := by
  rw [after_queue, chargesOf_eq]
  exact runCalls_owes config.maxQueueDepth (callsOf config events)

/-- After any run the attempts of a task are the failures, retries and expired leases it was charged with, and it is in
the dead-letter table exactly when these are more than the retries it allows. -/
theorem attempts_exact (config : Settings) (events : List Event) (id : String) (task : TaskEnvelope)
    (known : (after config events).engine.queue.task? id = some task) :
    task.attempts = (chargesOf config events).count id ∧
      (id ∈ (after config events).engine.queue.deadLetter ↔
        task.spec.maxRetries < (chargesOf config events).count id) := by
  obtain ⟨ref, found, rfl⟩ := Option.map_eq_some_iff.mp known
  obtain ⟨attempts, dead⟩ := (after_owes config events).1 id _ (life_eq found)
  refine ⟨attempts, ?_⟩
  rw [← attempts]
  simpa only [lifeOf, decide_eq_true_eq] using dead

/-- A task that is to fail twice: its first attempt fails, its second lease expires, and it has one retry. -/
def sampleExhausted : List Event :=
  [.registerWorker (sampleWorker "w") 0,
    .submit { sampleTask "a" with spec := { (sampleTask "a").spec with maxRetries := 1 } } (fun _ => 1),
    .proceed (fun _ => 1), .reserveTask "w" 1, .reserveEnters 0 1, .reservePass 0 (fun _ => 2) 1, .reserveReturns 0,
    .proceed (fun _ => 2)] ++ sampleReport .failed 4 ++
  [.reserveTask "w" 1, .reserveEnters 1 20, .reservePass 1 (fun _ => 20) 20, .reserveReturns 1, .proceed (fun _ => 20),
    .requeueExpired (fun _ => 60)]

theorem attempts_exact_sample :
    ∃ task, (after {} sampleExhausted).engine.queue.task? "a" = some task ∧
      task.attempts = (chargesOf {} sampleExhausted).count "a" ∧
      ("a" ∈ (after {} sampleExhausted).engine.queue.deadLetter ↔
        task.spec.maxRetries < (chargesOf {} sampleExhausted).count "a") := by
  obtain ⟨task, known⟩ := exists_task (after {} sampleExhausted).engine.queue "a" (by decide +kernel)
  exact ⟨task, known, attempts_exact {} sampleExhausted "a" task known⟩

example : chargesOf {} sampleExhausted = ["a", "a"] := by decide +kernel

/-- Along a run, with the ids handed out so far. -/
theorem after_paid (config : Settings) (events : List Event) :
    AllPaid (dispatchedOf config events) (after config events).engine.queue := by
  have start : AllPaid [] (init config).engine.queue := by
    refine ⟨?_, fun _ _ => rfl⟩
    intro id l alive
    cases alive
  let J : List String → System → Prop := fun past s => Represented s.engine.queue ∧ AllPaid past s.engine.queue
  have both : J ([] ++ dispatchedOf config events) (after config events) := by
    refine Machine.history_invariant ?_ ⟨represented_init _, start⟩ events
    intro past s event held
    obtain ⟨rep, paid⟩ := held
    show Represented _ ∧ AllPaid _ _
    rw [step_queue, queueStep, dispatched]
    cases s.queueCall event with
    | none =>
      rw [Option.bind_none, Option.toList_none, List.append_nil]
      exact ⟨rep, paid⟩
    | some call =>
      rw [Option.bind_some]
      exact ⟨step_represented rep call, step_paid rep paid call⟩
  exact both.2

/-- A task is handed out once, and once more for each charge that left it a retry: one that was never charged is handed
out at most once. -/
theorem dispatches_earned (config : Settings) (events : List Event) (id : String) (task : TaskEnvelope)
    (known : (after config events).engine.queue.task? id = some task) :
    ((dispatchedOf config events).count id : Int) ≤ 1 + min ((chargesOf config events).count id : Int) task.spec.maxRetries := by
  obtain ⟨ref, found, rfl⟩ := Option.map_eq_some_iff.mp known
  have owes := ((after_owes config events).1 id _ (life_eq found)).attempts
  have paid := ((after_paid config events).1 id _ (life_eq found)).1
  rw [owes] at paid
  simp only [lifeOf] at paid
  omega

theorem dispatches_earned_sample :
    ∃ task, (after {} sampleExhausted).engine.queue.task? "a" = some task ∧
      ((dispatchedOf {} sampleExhausted).count "a" : Int) ≤
        1 + min ((chargesOf {} sampleExhausted).count "a" : Int) task.spec.maxRetries := by
  obtain ⟨task, known⟩ := exists_task (after {} sampleExhausted).engine.queue "a" (by decide +kernel)
  exact ⟨task, known, dispatches_earned {} sampleExhausted "a" task known⟩

end System

end TaskRunner
