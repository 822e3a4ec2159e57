import TaskRunner.Queue.Dispatchability
import TaskRunner.Scheduler.Guarantees

/-!
What a retry by hand does for a task that is done with. A dead letter stays one, as it has no budget left, and a task
that was once cancelled is retried in name only.
-/

namespace TaskRunner
open Base InMemoryTaskQueue

/-- A dead-lettered task has used up its budget. -/
def Life.Spent (l : Life) : Prop := l.task.status = .deadLettered → ¬ l.retryable

theorem Life.spent_stable : Life.Stable Life.Spent where
  born l newborn dead := by rw [newborn.status] at dead; cases dead
  settles l m spent settles := by
    unfold Spent Life.retryable
    rw [settles.task]
    exact spent
  dispatch _ _ _ _ _ _ dead := by cases dead
  complete l status error _ final dead := by
    have reported : status = .deadLettered := dead
    rcases final with same | same <;> rw [same] at reported <;> cases reported
  retry l reason start now _ dead := by
    by_cases budget : l.retryable
    · rw [retry_status, if_pos budget] at dead
      cases dead
    · unfold Life.retryable at budget ⊢
      rw [retry_attempts, retry_task_spec]
      omega
  cancel _ _ dead := by cases dead

namespace InMemoryTaskQueue

/-- The task has been brought back: it waits for its retry, is no dead letter any more and can be had. -/
structure Revived (q : InMemoryTaskQueue) (id : String) : Prop where
  retrying : ∃ task, q.task? id = some task ∧ task.status = .retrying
  taken : id ∉ q.deadLetter
  dispatchable : q.Dispatchable id

theorem not_revived {q : InMemoryTaskQueue} {id : String} {task : TaskEnvelope} (named : q.task? id = some task)
    (dead : task.status = .deadLettered) : ¬ q.Revived id := by
  intro revived
  obtain ⟨other, same, retrying⟩ := revived.retrying
  obtain rfl := Option.some.inj (named.symm.trans same)
  rw [dead] at retrying
  cases retrying

end InMemoryTaskQueue

namespace System

theorem retryTask_queue {s : System} (free : s.idle = true) (id : String) (clock : Clock) :
    (s.step (.retryTask id clock)).engine.queue = s.engine.queue.exec (.retry id "manual retry" clock) := by
  have made : s.queueCall (.retryTask id clock) = some (.retry id "manual retry" clock) := if_pos free
  have issued : Call.Issued s.engine.queue (.retry id "manual retry" clock) := trivial
  rw [step_queue, queueStep, made]
  exact step_issued issued

theorem retryTask_cancelled (s : System) (rep : Represented s.engine.queue) (id : String) (clock : Clock) :
    (s.step (.retryTask id clock)).engine.queue.cancelled = s.engine.queue.cancelled := by
  by_cases free : s.idle = true
  · rw [retryTask_queue free, exec]
    cases found : s.engine.queue.tasks.get? id with
    | none => rw [retry_unknown rep found]
    | some task =>
      obtain ⟨r, result, retried⟩ := retry_exact rep found "manual retry" clock
      rw [result]
      exact retried.cancelled
  · show (s.whenIdle _).engine.queue.cancelled = _
    rw [whenIdle, if_neg free]

/-- A dead letter that is retried by hand is not revived: it is a dead letter again, with one attempt more. -/
theorem dead_never_revived (config : Settings) (events : List Event) (id : String) (task : TaskEnvelope)
    (named : (after config events).engine.queue.task? id = some task) (dead : task.status = .deadLettered)
    (clock : Clock) :
    ¬ ((after config events).step (.retryTask id clock)).engine.queue.Revived id ∧
      ((after config events).idle = true →
        id ∈ ((after config events).step (.retryTask id clock)).engine.queue.deadLetter ∧
          ∃ after', ((after config events).step (.retryTask id clock)).engine.queue.task? id = some after' ∧
            after'.status = .deadLettered ∧ after'.attempts = task.attempts + 1) := by
  have rep := after_represented config events
  obtain ⟨l, alive, rfl⟩ := life_of_task? named
  have spent := after_everywhere Life.spent_stable config events id l alive dead
  by_cases free : (after config events).idle = true
  · have issued : Call.Issued (after config events).engine.queue (.retry id "manual retry" clock) := trivial
    obtain ⟨l', alive', effect⟩ := (exec_stepped rep _ issued).lives id l alive
    rw [← retryTask_queue free] at alive'
    have retried : l' = l.retry "manual retry" (clock 0) (clock 1) := Eq.trans effect (if_pos rfl)
    have status : l'.task.status = .deadLettered := by rw [retried, Life.retry_status, if_neg spent]
    have named' := task?_of_life alive'
    have buried : l'.dead = true := by
      rw [retried]
      unfold Life.retry
      dsimp only
      rw [if_neg spent]
    refine ⟨not_revived named' status, fun _ => ⟨?_, l'.task, named', status, ?_⟩⟩
    · obtain ⟨ref, _, rfl⟩ := exists_of_life alive'
      exact of_decide_eq_true buried
    · rw [retried, Life.retry_attempts]
  · -- the loop is in the middle of another call, and the retry has not begun
    have waits : (after config events).step (.retryTask id clock) = after config events := if_neg free
    rw [waits]
    exact ⟨not_revived named dead, fun idle => absurd idle free⟩

/-- A task without retries fails, and its dead letter is retried by hand. -/
def sampleBuried : List Event :=
  [.registerWorker (sampleWorker "w") 0, .submit { sampleTask "a" with spec := { target := "jobs:run", maxRetries := 0 } }
      (fun _ => 1), .proceed (fun _ => 1), .reserveTask "w" 1, .reserveEnters 0 1, .reservePass 0 (fun _ => 2) 1,
    .reserveReturns 0, .proceed (fun _ => 2)] ++ sampleReport .failed 4

theorem dead_never_revived_sample :
    ¬ ((after {} sampleBuried).step (.retryTask "a" (fun _ => 5))).engine.queue.Revived "a" := by
  obtain ⟨task, known⟩ := exists_task (after {} sampleBuried).engine.queue "a" (by decide +kernel)
  have dead : ∀ t ∈ (after {} sampleBuried).engine.queue.task? "a", t.status = .deadLettered := by decide +kernel
  exact (dead_never_revived {} sampleBuried "a" task known (dead task known) fun _ => 5).1

theorem dead_revived_fails :
    ((after {} sampleBuried).engine.queue.task? "a").map TaskEnvelope.status = some .deadLettered ∧
      ¬ ((after {} sampleBuried).step (.retryTask "a" (fun _ => 5))).engine.queue.Revived "a" := by
  refine ⟨by decide +kernel, fun revived => ?_⟩
  exact absurd ((Dict.mem_iff ..).mpr (by decide +kernel)) revived.taken

/-- After a retry by hand that returns the task as retrying, the task stays dispatchable exactly when it was never
cancelled, and so it is for every task that waits for a retry. -/
theorem retried_stays_dispatchable (config : Settings) (events : List Event) (id : String) (clock : Clock)
    (task : TaskEnvelope)
    (returned : ((after config events).step (.retryTask id clock)).engine.queue.task? id = some task)
    (retrying : task.status = .retrying) :
    (((after config events).step (.retryTask id clock)).engine.queue.StaysDispatchable id ↔
      id ∉ (after config events).engine.queue.cancelled) ∧
    ∀ other waiting, (after config events).engine.queue.task? other = some waiting → waiting.status = .retrying →
      ((after config events).engine.queue.StaysDispatchable other ↔
        other ∉ (after config events).engine.queue.cancelled) := by
  have everyState : ∀ run other waiting, (after config run).engine.queue.task? other = some waiting →
      waiting.status = .retrying → ((after config run).engine.queue.StaysDispatchable other ↔
        other ∉ (after config run).engine.queue.cancelled) := by
    intro run other waiting named status
    have leased := after_everywhere Life.leased_stable config run
    rw [after_queue] at named leased ⊢
    exact staysDispatchable_iff (runCalls_represented _ _) (runCalls_heaped _ _) (runCalls_awaited _ _) leased named
      status
  refine ⟨?_, everyState events⟩
  have next : (after config events).step (.retryTask id clock) = after config (events ++ [.retryTask id clock]) := by
    unfold after
    rw [Machine.run_append]
    rfl
  rw [← retryTask_cancelled _ (after_represented config events) id clock]
  rw [next] at returned ⊢
  exact everyState _ id task returned retrying

theorem retried_stays_sample :
    ((after {} (sampleDispatch ++ sampleReport .failed 4)).step (.retryTask "a" (fun _ => 5))).engine.queue.StaysDispatchable
      "a" := by
  obtain ⟨task, known⟩ := exists_task ((after {} (sampleDispatch ++ sampleReport .failed 4)).step
    (.retryTask "a" (fun _ => 5))).engine.queue "a" (by decide +kernel)
  have retrying : ∀ t ∈ ((after {} (sampleDispatch ++ sampleReport .failed 4)).step
      (.retryTask "a" (fun _ => 5))).engine.queue.task? "a", t.status = .retrying := by decide +kernel
  exact (retried_stays_dispatchable {} _ "a" (fun _ => 5) task known (retrying task known)).1.mpr (by decide +kernel)

/-- A queued task is cancelled and then retried by hand. -/
def sampleCancelled : List Event :=
  [.submit (sampleTask "a") (fun _ => 1), .proceed (fun _ => 1), .cancelTask "a", .proceed (fun _ => 2)]

/-- It is retrying, counts towards the depth, and a worker with nothing else to do gets nothing. -/
theorem retried_stays_fails :
    ∃ q, q = ((after {} sampleCancelled).step (.retryTask "a" (fun _ => 3))).engine.queue ∧
      (q.task? "a").map TaskEnvelope.status = some .retrying ∧ q.depth = 1 ∧
      q.handed (.reserve (sampleWorker "w") ∅ 30 (fun _ => 4)) = none ∧ ¬ q.StaysDispatchable "a" := by
  refine ⟨_, rfl, by decide +kernel, by decide +kernel, by decide +kernel, ?_⟩
  have rep := represented_step (after_represented {} sampleCancelled) (.retryTask "a" (fun _ => 3))
  exact cancelled_not_dispatchable rep (by decide +kernel) (by decide +kernel)

end System

end TaskRunner
