import TaskRunner.Queue.TieBreaks
import TaskRunner.Scheduler.Delays

/-!
Submission order over whole runs of the scheduler.
-/

namespace TaskRunner
open Base InMemoryTaskQueue

namespace System

/-- As long as every promotion, by a reserve or by a snapshot, files what is due in the order of submission, no task is
dispatched while one waits and is due that was submitted before it and is otherwise alike. -/
theorem submission_order_when (config : Settings) (events : List Event)
    (inOrder : Machine.Along step (fun s event => ∀ call ∈ s.queueCall event, ∀ now ∈ call.promotes,
      s.engine.queue.PromotesInOrder now) (init config) events) :
    Machine.Along step (fun s event => ∀ id ∈ s.dispatched event, ∀ clock ∈ event.clock,
      s.engine.queue.FirstSubmitted id (clock 0)) (init config) events := by
  have first := run_first config.maxQueueDepth ((along_calls config events).mpr inOrder)
  refine Machine.Along.imp ?_ ((along_calls config events).mp first)
  intro s event submitted id dispatched clock read
  obtain ⟨call, made, handed, reads⟩ := dispatched_clock dispatched read
  exact submitted call made id handed clock reads

/-- Two tasks of one batch, alike but for their ids and delayed by the same time. -/
def sampleDelayed (id : String) : Submission :=
  { sampleTask id with spec := { target := "jobs:run", delaySeconds := 5 } }

/-- A worker asks once the delay of the batch is over. -/
def sampleBatch (first second : String) : List Event :=
  [.registerWorker (sampleWorker "w") 0, .submitBatch [sampleDelayed first, sampleDelayed second] (fun _ => 1),
    .proceed (fun _ => 1), .proceed (fun _ => 1), .proceed (fun _ => 1), .reserveTask "w" 1, .reserveEnters 0 10,
    .reservePass 0 (fun _ => 10) 10]

theorem submission_order_sample :
    Machine.Along step (fun s event => ∀ id ∈ s.dispatched event, ∀ clock ∈ event.clock,
      s.engine.queue.FirstSubmitted id (clock 0)) (init {}) (sampleBatch "a" "b") :=
  submission_order_when {} (sampleBatch "a" "b") (by decide +kernel)

/-- The batch is promoted under one sequence number, and the second task is dispatched for its smaller id. -/
theorem submission_order_fails :
    Machine.collect step (fun s event => (s.dispatched event).toList) (init {}) (sampleBatch "b" "a") = ["a"] ∧
      ¬ Machine.Along step (fun s event => ∀ id ∈ s.dispatched event, ∀ clock ∈ event.clock,
        s.engine.queue.FirstSubmitted id (clock 0)) (init {}) (sampleBatch "b" "a") := by
  constructor <;> decide +kernel

end System

end TaskRunner
