import TaskRunner.Scheduler.Charges
import TaskRunner.Scheduler.Reports
import TaskRunner.Workers.Capacity
import TaskRunner.Workers.Tracing

/-!
What the scheduler holds against what the worker did: a success is that of an execution, and no task is executed more
often than its retries allow.
-/

namespace TaskRunner
open Base InMemoryTaskQueue

/-! ### What a success is owed to -/

namespace System

theorem resume_unsettled (s : System) (outcome : Except QueueError TaskRef × InMemoryTaskQueue) (result : TaskResult) :
    (s.resume outcome .storeTask).frame ≠ .settleReport result := by
  intro settling
  unfold resume at settling
  dsimp only at settling
  split at settling <;> cases settling

theorem step_settling {s : System} {event : Event} {result : TaskResult}
    (settling : (s.step event).frame = .settleReport result) :
    s.frame = .settleReport result ∨ event = .reportResult result := by
  have steps := step_steps s event
  obtain ⟨t, reached⟩ : ∃ t, t = s.step event := ⟨_, rfl⟩
  rw [← reached] at steps settling
  cases steps with
  | proceed => exact (proceed_unsettled s _ result settling).elim
  | reportResult =>
    obtain rfl := Frame.settleReport.inj settling
    exact Or.inr rfl
  | submit | cancelTask | retryTask => exact (resume_unsettled s _ result settling).elim
  | reservePass =>
    rw [passCall_frame] at settling
    exact Or.inl settling
  | submitBatch | returnsTask | leaseReaperResumes => cases settling
  | _ => exact Or.inl settling

theorem after_settling (config : Settings) (events : List Event) {result : TaskResult}
    (settling : (after config events).frame = .settleReport result) : .reportResult result ∈ events := by
  induction events using List.reverseRecOn with
  | nil => cases settling
  | append_singleton events event ih =>
    rw [after_snoc] at settling
    rcases step_settling settling with before | rfl
    · exact List.mem_append_left _ (ih before)
    · exact List.mem_append_right _ List.mem_cons_self

/-- A task has succeeded only when its success was reported. -/
theorem after_earned (config : Settings) (events : List Event) {id : String} {l : Life}
    (alive : (after config events).engine.queue.life id = some l) (succeeded : l.task.status = .succeeded) :
    ∃ result, .reportResult result ∈ events ∧ result.taskId = id ∧ result.status = .succeeded := by
  induction events using List.reverseRecOn generalizing l with
  | nil => cases alive
  | append_singleton events event ih =>
    have earlier : ∀ l, (after config events).engine.queue.life id = some l → l.task.status = .succeeded →
        ∃ result, .reportResult result ∈ events ++ [event] ∧ result.taskId = id ∧ result.status = .succeeded := by
      intro l alive succeeded
      obtain ⟨result, reported, same⟩ := ih alive succeeded
      exact ⟨result, List.mem_append_left _ reported, same⟩
    rw [after_snoc, step_queue, queueStep] at alive
    cases made : (after config events).queueCall event with
    | none =>
      rw [made] at alive
      exact earlier l alive succeeded
    | some call =>
      rw [made] at alive
      rcases step_succeeded (after_represented config events) call alive succeeded with
        ⟨l, before, already⟩ | ⟨_, error, rfl⟩
      · exact earlier l before already
      · obtain ⟨clock, result, rfl, frame, same, reported⟩ := queueCall_madeBy made
        exact ⟨result, List.mem_append_left _ (after_settling config events frame), same, reported⟩

end System

namespace Cluster

variable {n : ℕ} {workerId : String}

/-- A report the scheduler takes is a consumer's, or comes from elsewhere. -/
theorem reported_here (config : Settings) (events : List (ClusterEvent n)) {result : TaskResult}
    (reported : .reportResult result ∈ eventsOf config workerId events) :
    .environment (.reportResult result) ∈ events ∨ result ∈ reportsOf config workerId events := by
  by_cases elsewhere : .environment (.reportResult result) ∈ events
  · exact Or.inl elsewhere
  · right
    refine Machine.mem_collect_imp ?_ reported
    intro k event member makes
    have acts : Acts workerId k event (k.systemEvents workerId event) (k.act workerId event) := k.act_acts event
    unfold passing
    generalize k.systemEvents workerId event = calls at acts makes
    generalize k.act workerId event = k' at acts
    cases acts with
    | stays | proceeds | fails => cases makes
    | reserves | responds => cases List.mem_singleton.mp makes
    | environment event =>
      obtain rfl := List.mem_singleton.mp makes
      exact (elsewhere member).elim
    | @delivers consumer other sending =>
      obtain rfl := Event.reportResult.inj (List.mem_singleton.mp makes)
      refine List.mem_flatMap.mpr ⟨consumer, List.mem_finRange consumer, ?_⟩
      dsimp only [place]
      rw [sending, Function.update_self]
      exact List.mem_cons_self

/-- A task succeeds only when an execution of it by this worker has, or when another report says so. -/
theorem success_earned (config : Settings) (workerId : String) (events : List (ClusterEvent n)) (id : String)
    (task : TaskEnvelope) (known : (after config workerId events).system.engine.queue.task? id = some task)
    (succeeded : task.status = .succeeded) :
    (∃ result, .environment (.reportResult result) ∈ events ∧ result.taskId = id ∧ result.status = .succeeded) ∨
      ∃ value startedAt finishedAt,
        execute id workerId (.ok value) startedAt finishedAt ∈ executionsOf config workerId events := by
  obtain ⟨ref, found, rfl⟩ := Option.map_eq_some_iff.mp known
  rw [after_system] at found succeeded
  obtain ⟨result, reported, rfl, status⟩ := System.after_earned config _ (life_eq found) succeeded
  rcases reported_here config events reported with elsewhere | here
  · exact Or.inl ⟨result, elsewhere, rfl, status⟩
  · right
    have executed := (executions_reported config workerId events).mem_iff.mpr (List.mem_append_left _ here)
    obtain ⟨taskId, outcome, startedAt, finishedAt, rfl⟩ := executionsOf_execute executed
    cases outcome with
    | error error => cases status
    | ok value => exact ⟨value, startedAt, finishedAt, executed⟩

/-- The sample task is executed and its success reported. -/
def sampleTraced : List (ClusterEvent 2) :=
  sampleCluster ++ [.finish (Fin.last 1) (.ok .null) 3 4, .deliver (Fin.last 1), .environment (.proceed fun _ => 5),
    .environment (.proceed fun _ => 5), .environment (.proceed fun _ => 5), .acknowledge (Fin.last 1)]

theorem success_earned_sample : ∃ value startedAt finishedAt,
    execute "a" "w" (.ok value) startedAt finishedAt ∈ executionsOf {} "w" sampleTraced := by
  obtain ⟨task, known⟩ := System.exists_task (after {} "w" sampleTraced).system.engine.queue "a" (by decide +kernel)
  have status : ((after {} "w" sampleTraced).system.engine.queue.task? "a").map TaskEnvelope.status =
      some .succeeded := by decide +kernel
  rw [known] at status
  refine (success_earned {} "w" sampleTraced "a" task known (Option.some.inj status)).resolve_left ?_
  rintro ⟨result, reported, _⟩
  simp [sampleTraced, sampleCluster] at reported

theorem dispatches_fst (s : System) (event : Event) :
    ((Broadcaster.dispatches s event).map Prod.fst).Sublist (s.dispatched event).toList := by
  cases event with
  | reservePass call clock monotonic =>
    simp only [Broadcaster.dispatches]
    split
    · rename_i out
      rw [out]
      exact List.Sublist.refl _
    · exact List.nil_sublist _
  | _ => exact List.nil_sublist _

/-- A worker executes no task more than once for its submission and once for each retry it allows, however many
consumers it has. -/
theorem executions_bounded (config : Settings) (workerId : String) (events : List (ClusterEvent n)) (id : String)
    (task : TaskEnvelope) (known : (after config workerId events).system.engine.queue.task? id = some task) :
    (((executionsOf config workerId events).map TaskResult.taskId).count id : Int) ≤ task.spec.maxRetries + 1 := by
  obtain ⟨ref, found, rfl⟩ := Option.map_eq_some_iff.mp known
  rw [after_system] at found ⊢
  have executed : ((executionsOf config workerId events).map TaskResult.taskId).Subperm
      (answersOf config workerId events) :=
    (List.sublist_append_left _ _).subperm.trans (answers_executed config workerId events).symm.subperm
  have answered : (answersOf config workerId events).Subperm
      ((Broadcaster.dispatchesOf config (eventsOf config workerId events)).map Prod.fst) := by
    obtain ⟨given, same, inside⟩ := answers_subperm config workerId events
    have named := same.map Prod.fst
    rw [List.map_map, Function.comp_def, List.map_id'] at named
    exact ⟨given.map Prod.fst, named, inside.map Prod.fst⟩
  have handed : ((Broadcaster.dispatchesOf config (eventsOf config workerId events)).map Prod.fst).Sublist
      (System.dispatchedOf config (eventsOf config workerId events)) := by
    rw [Broadcaster.dispatchesOf, ← List.filterMap_eq_map, Machine.collect_filterMap]
    simp only [List.filterMap_eq_map]
    exact Machine.collect_sublist (I := fun _ => True) (fun _ _ _ => trivial) (fun s event _ => dispatches_fst s event)
      trivial _
  have count := ((executed.trans answered).trans handed.subperm).count_le id
  obtain ⟨bound, nonneg⟩ := (System.after_paid config (eventsOf config workerId events)).1 id _ (life_eq found)
  simp only [lifeOf] at bound
  omega

theorem executions_bounded_sample :
    ∃ task, (after {} "w" sampleTraced).system.engine.queue.task? "a" = some task ∧
      (((executionsOf {} "w" sampleTraced).map TaskResult.taskId).count "a" : Int) ≤ task.spec.maxRetries + 1 := by
  obtain ⟨task, known⟩ := System.exists_task (after {} "w" sampleTraced).system.engine.queue "a" (by decide +kernel)
  exact ⟨task, known, executions_bounded {} "w" sampleTraced "a" task known⟩

end Cluster

end TaskRunner
