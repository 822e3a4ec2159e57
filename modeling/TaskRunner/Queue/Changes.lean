import TaskRunner.Queue.Filing
import TaskRunner.Queue.Selection

/-!
What the calls are made of, seen from the heaps: a submission, a retry, a change that files nothing, a promotion, a
sweep of the ready heaps. What each of these keeps, every call keeps.
-/

namespace TaskRunner
open Base

/-- The reading at which a call promotes what is due. -/
def Call.promotes : Call → Option ℚ
  | .reserve _ _ _ clock => some (clock 0)
  | .snapshot now => some now
  | _ => none

/-- The task has been submitted or retried and not been dispatched since. -/
def TaskStatus.waits : TaskStatus → Bool
  | .queued | .retrying => true
  | _ => false

namespace InMemoryTaskQueue

/-- Nothing has changed of what the entries of a task are made from, and no task has begun to wait. -/
structure Annotated (q r : InMemoryTaskQueue) : Prop where
  tasks : r.tasks = q.tasks
  cancelled : q.cancelled ⊆ r.cancelled
  sequence : r.sequence = q.sequence
  filed : ∀ ref, (r.objects ref).spec = (q.objects ref).spec ∧ (r.objects ref).createdAt = (q.objects ref).createdAt ∧
    (r.objects ref).availableAt = (q.objects ref).availableAt ∧ (r.objects ref).attempts = (q.objects ref).attempts
  status : ∀ ref, (r.objects ref).status = (q.objects ref).status ∨ (r.objects ref).status.waits = false

/-- Every change keeps `I`, a promotion whenever `C` holds of the queue and the reading. -/
structure Kept (I : InMemoryTaskQueue → Prop) (C : InMemoryTaskQueue → ℚ → Prop) : Prop where
  admitted : ∀ {q r : InMemoryTaskQueue} {task : Submission} {clock : Clock}, Represented q → task.taskId ∉ q.tasks →
    Admitted q task clock r → I q → I r
  retried : ∀ {q r : InMemoryTaskQueue} {id : String} {task : TaskRef} {reason : String} {clock : Clock},
    Represented q → q.tasks.get? id = some task → Retried q id task reason clock r → I q → I r
  annotated : ∀ {q r : InMemoryTaskQueue}, Annotated q r → r.ready = q.ready → r.delayed = q.delayed → I q → I r
  promoted : ∀ {q p : InMemoryTaskQueue} {now : ℚ}, Represented q → Promoted q now p → C q now → I q → I p
  swept : ∀ {p r : InMemoryTaskQueue} {worker : WorkerInfo} {taken : Option (String × ReadyEntry)}, Annotated p r →
    Swept p worker taken r →
    (∀ queueName entry, taken = some (queueName, entry) → ∃ task, r.task? entry.taskId = some task ∧
      task.status = .running) → I p → I r

section Assigned

variable {q : InMemoryTaskQueue}

/-- Assigning fields that no entry is made from. -/
theorem annotated_assign (q : InMemoryTaskQueue) (task : TaskRef) {f : TaskEnvelope → TaskEnvelope}
    (keeps : ∀ t, (f t).spec = t.spec ∧ (f t).createdAt = t.createdAt ∧ (f t).availableAt = t.availableAt ∧
      (f t).attempts = t.attempts)
    (status : ∀ t, (f t).status = t.status ∨ (f t).status.waits = false) : Annotated q (q.assign task f) := by
  refine ⟨rfl, subset_rfl, rfl, fun ref => ?_, fun ref => ?_⟩
  · by_cases here : ref = task
    · rw [here, assign_self]
      exact keeps _
    · rw [assign_other q here]
      exact ⟨rfl, rfl, rfl, rfl⟩
  · by_cases here : ref = task
    · rw [here, assign_self]
      exact status _
    · rw [assign_other q here]
      exact Or.inl rfl

theorem Annotated.same {p r : InMemoryTaskQueue} (tasks : r.tasks = p.tasks) (cancelled : r.cancelled = p.cancelled)
    (sequence : r.sequence = p.sequence) (objects : r.objects = p.objects) : Annotated p r := by
  refine ⟨tasks, cancelled.symm.subset, sequence, fun ref => ?_, fun ref => ?_⟩
  · rw [objects]
    exact ⟨rfl, rfl, rfl, rfl⟩
  · rw [objects]
    exact Or.inl rfl

theorem PassedOver.annotated {p r : InMemoryTaskQueue} {worker : WorkerInfo} (passed : PassedOver p worker r) :
    Annotated p r := by
  rw [passed.rest]
  exact .same rfl rfl rfl rfl

theorem Leased.annotated {p r : InMemoryTaskQueue} {worker : WorkerInfo} {deadline : ℚ} {queueName : String}
    {entry : ReadyEntry} {task : TaskRef} (leased : Leased p worker deadline queueName entry task r) :
    Annotated p r := by
  have assigned := annotated_assign p task (f := fun t => { t with
    status := .running, assignedWorker := some worker.workerId, leaseDeadline := some deadline })
    (fun _ => ⟨rfl, rfl, rfl, rfl⟩) (fun _ => Or.inr rfl)
  rw [leased.rest]
  exact ⟨rfl, subset_rfl, rfl, assigned.filed, assigned.status⟩

theorem Leased.task? {p r : InMemoryTaskQueue} {worker : WorkerInfo} {deadline : ℚ} {queueName : String}
    {entry : ReadyEntry} {task : TaskRef} (leased : Leased p worker deadline queueName entry task r) :
    r.task? entry.taskId = some { p.objects task with
      status := .running, assignedWorker := some worker.workerId, leaseDeadline := some deadline } := by
  rw [leased.rest, InMemoryTaskQueue.task?, show _ = some task from leased.found, Option.map_some]
  exact congrArg some (Function.update_self ..)

end Assigned

namespace Kept

variable {I : InMemoryTaskQueue → Prop} {C : InMemoryTaskQueue → ℚ → Prop} {q : InMemoryTaskQueue}

theorem submit (kept : Kept I C) (rep : Represented q) (task : Submission) (new : task.taskId ∉ q.tasks)
    (clock : Clock) (holds : I q) : I (q.submit task.envelope clock).2 := by
  by_cases full : q.maxDepth ≤ q.depth
  · rw [submit_full full]
    exact holds
  · obtain ⟨r, result, admitted⟩ := submit_exact rep (not_le.mp full) task new clock
    rw [result]
    exact kept.admitted rep new admitted holds

theorem submitMany (kept : Kept I C) (rep : Represented q) (batch : List Submission)
    (new : ∀ task ∈ batch, task.taskId ∉ q.tasks) (distinct : (batch.map Submission.taskId).Nodup) (clock : Clock)
    (holds : I q) : I (q.submitMany (batch.map Submission.envelope) clock).2 := by
  induction batch generalizing q clock with
  | nil => exact holds
  | cons task rest ih =>
    have here := new task List.mem_cons_self
    rw [List.map_cons]
    by_cases full : q.maxDepth ≤ q.depth
    · rw [InMemoryTaskQueue.submitMany, submit_full full]
      exact holds
    · obtain ⟨r, first, admitted⟩ := submit_exact rep (not_le.mp full) task here clock
      rw [submitMany_cons first]
      exact ih admitted.represented (admitted.fresh new distinct) (List.nodup_cons.mp distinct).2 _
        (kept.admitted rep here admitted holds)

theorem requeueLoop (kept : Kept I C) (now : ℚ) (pending : List (String × TaskRef)) (rep : Represented q)
    (listed : ∀ id task, (id, task) ∈ pending → q.tasks.get? id = some task) (clock : Clock) (holds : I q) :
    I (InMemoryTaskQueue.requeueLoop now pending q clock).2 := by
  induction pending generalizing q clock with
  | nil => exact holds
  | cons lease rest ih =>
    obtain ⟨id, task⟩ := lease
    have found := listed id task List.mem_cons_self
    have later : ∀ other ref, (other, ref) ∈ rest → q.tasks.get? other = some ref := fun other ref member =>
      listed other ref (List.mem_cons_of_mem _ member)
    by_cases due : q.expired now task = true
    · have assigned := annotated_assign q task (f := fun t => { t with assignedWorker := none })
        (fun _ => ⟨rfl, rfl, rfl, rfl⟩) (fun _ => Or.inl rfl)
      have holdsFreed : I (q.freed id task) :=
        kept.annotated ⟨assigned.tasks, assigned.cancelled, assigned.sequence, assigned.filed, assigned.status⟩ rfl rfl
          holds
      obtain ⟨r, result, retried⟩ :=
        retry_exact (rep.freed id task) (show (q.freed id task).tasks.get? id = some task from found) "lease expired" clock
      rw [requeueLoop_due due result]
      exact ih retried.represented (fun other ref member => by rw [retried.tasks]; exact later other ref member)
        (clock.later 2) (kept.retried (rep.freed id task) found retried holdsFreed)
    · rw [requeueLoop_early due]
      exact ih rep later clock holds

theorem reserve (kept : Kept I C) (rep : Represented q) (heaped : Heaped q) (worker : WorkerInfo)
    (completed : Finset String) (leaseSeconds : ℚ) {clock : Clock} (met : C q (clock 0)) (holds : I q) :
    I (q.reserve worker completed leaseSeconds clock).2 := by
  obtain ⟨p, outcome, r, promoted, result, _, passed, taken⟩ :=
    reserve_selection rep heaped worker completed leaseSeconds clock
  rw [result]
  have moved := kept.promoted rep promoted met holds
  cases outcome with
  | none =>
    have nothing := passed rfl
    exact kept.swept nothing.annotated nothing.swept (fun _ _ none => by cases none) moved
  | some task =>
    obtain ⟨queueName, entry, _, _, leased⟩ := taken task rfl
    refine kept.swept leased.annotated leased.swept (fun name other same => ?_) moved
    obtain ⟨rfl, rfl⟩ := Prod.mk.inj (Option.some.inj same)
    exact ⟨_, leased.task?, rfl⟩

theorem complete (kept : Kept I C) (rep : Represented q) (taskId : String) {status : TaskStatus}
    (final : status = .succeeded ∨ status = .cancelled) (error : Option String) (holds : I q) :
    I (q.complete taskId status error).2 := by
  cases found : q.tasks.get? taskId with
  | none =>
    rw [complete_unknown rep found]
    exact holds
  | some task =>
    have closed : status ≠ .deadLettered := by rcases final with rfl | rfl <;> decide
    have assigned := annotated_assign q task (f := fun t => { t with status, lastError := error, leaseDeadline := none })
      (fun _ => ⟨rfl, rfl, rfl, rfl⟩) (fun _ => Or.inr (by rcases final with rfl | rfl <;> rfl))
    unfold InMemoryTaskQueue.complete
    rw [popInflight_known rep found]
    simp only [if_neg closed]
    exact kept.annotated ⟨assigned.tasks, assigned.cancelled, assigned.sequence, assigned.filed, assigned.status⟩ rfl rfl
      holds

theorem cancel (kept : Kept I C) (taskId : String) (holds : I q) : I (q.cancel taskId).2 := by
  unfold InMemoryTaskQueue.cancel
  cases q.tasks.get? taskId with
  | none => exact holds
  | some task =>
    have assigned := annotated_assign q task (f := fun t => { t with status := .cancelled })
      (fun _ => ⟨rfl, rfl, rfl, rfl⟩) (fun _ => Or.inr rfl)
    have marked : Annotated q { q.assign task (fun t => { t with status := .cancelled }) with
        cancelled := insert taskId q.cancelled, inflight := q.inflight.erase taskId } :=
      ⟨rfl, Finset.subset_insert _ _, rfl, assigned.filed, assigned.status⟩
    exact kept.annotated marked rfl rfl holds

/-- A call keeps what the changes it is made of keep. -/
theorem step (kept : Kept I C) (rep : Represented q) (heaped : Heaped q) (call : Call)
    (met : ∀ now ∈ call.promotes, C q now) (holds : I q) : I (q.step call) := by
  by_cases issued : call.Issued q
  · rw [step_issued issued]
    cases call with
    | submit task clock => exact kept.submit rep task issued clock holds
    | submitMany tasks clock => exact kept.submitMany rep tasks issued.1 issued.2 clock holds
    | reserve worker completed leaseSeconds clock =>
      exact kept.reserve rep heaped worker completed leaseSeconds (met _ rfl) holds
    | complete taskId status error => exact kept.complete rep taskId issued error holds
    | retry taskId reason clock =>
      cases found : q.tasks.get? taskId with
      | none =>
        rw [exec, retry_unknown rep found]
        exact holds
      | some task =>
        obtain ⟨r, result, retried⟩ := retry_exact rep found reason clock
        rw [exec, result]
        exact kept.retried rep found retried holds
    | cancel taskId => exact kept.cancel taskId holds
    | requeueExpiredLeases clock =>
      refine kept.requeueLoop (clock 0) q.inflight.entries rep (fun id task member => ?_) _ holds
      exact rep.inflight id task ((q.inflight.mem_entries_iff id task).mp member)
    | snapshot now => exact kept.promoted rep (promote_promoted rep heaped now) (met now rfl) holds
  · rw [step_refused issued]
    exact holds

theorem run (kept : Kept I C) (maxDepth : Int) (start : I (init maxDepth)) {calls : List Call}
    (met : Machine.Along InMemoryTaskQueue.step (fun r call => ∀ now ∈ call.promotes, C r now) (init maxDepth) calls) :
    I (runCalls maxDepth calls) := by
  have all : Represented (runCalls maxDepth calls) ∧ Heaped (runCalls maxDepth calls) ∧ I (runCalls maxDepth calls) := by
    refine Machine.run_invariant_along (I := fun r => Represented r ∧ Heaped r ∧ I r) ?_
      ⟨represented_init maxDepth, heaped_init maxDepth, start⟩ met
    intro r call held here
    obtain ⟨rep, heaped, holds⟩ := held
    exact ⟨step_represented rep call, step_heaped heaped call, kept.step rep heaped call here holds⟩
  exact all.2.2

end Kept

end InMemoryTaskQueue

end TaskRunner
