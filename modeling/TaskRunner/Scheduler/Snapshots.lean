import TaskRunner.Queue.Accounting
import TaskRunner.Scheduler.Guarantees

/-!
What the snapshots of a running scheduler count.
-/

namespace TaskRunner
open Base InMemoryTaskQueue

namespace System

/-- In a run that closes and retries only tasks of which nothing waits, every snapshot counts each open task once and
each dead-lettered task once, and the autoscaling recommendation rests on that count. -/
theorem snapshot_accounts_when (config : Settings) (events : List Event)
    (keeps : Machine.Along step (fun s event => ∀ call ∈ s.queueCall event, KeepsAccount s.engine.queue call)
      (init config) events) (now : ℚ) :
    let e := (after config events).engine
    let snapshot := (e.queue.snapshot now).1
    ((snapshot.queued + snapshot.delayed + snapshot.inflight : ℕ) : Int) = e.queue.depth ∧
      snapshot.deadLettered =
        (e.queue.tasks.values.filter fun task => (e.queue.objects task).status = .deadLettered).length ∧
      snapshot.pressure = (e.queue.depth : ℚ) / ((max 1 e.queue.maxDepth : Int) : ℚ) ∧
      (e.autoscalingRecommendation now).1.pressure = (e.queue.depth : ℚ) / ((max 1 e.queue.maxDepth : Int) : ℚ) := by
  intro e snapshot
  have balanced := runCalls_balanced config.maxQueueDepth (callsOf config events) ((along_calls config events).mpr keeps)
  rw [← after_queue] at balanced
  obtain ⟨total, dead, pressure⟩ := snapshot_counts (after_represented config events) balanced now
  exact ⟨total, dead, pressure, pressure⟩

theorem snapshot_accounts_sample :
    (((after {} (sampleDispatch ++ sampleReport .failed 4)).engine.queue.snapshot 4).1.deadLettered = 0) := by
  have counts := snapshot_accounts_when {} (sampleDispatch ++ sampleReport .failed 4) (by decide +kernel) 4
  rw [counts.2.1]
  decide +kernel

/-- A queued task is cancelled, and its entry is still counted. -/
theorem snapshot_accounts_fails :
    let e := (after {} [.submit (sampleTask "a") (fun _ => 1), .proceed (fun _ => 1), .cancelTask "a",
      .proceed (fun _ => 2)]).engine
    let snapshot := (e.queue.snapshot 3).1
    ((snapshot.queued + snapshot.delayed + snapshot.inflight : ℕ) : Int) ≠ e.queue.depth := by
  decide +kernel

end System

end TaskRunner
