import TaskRunner.Queue.Effect
import TaskRunner.Queue.Filing

/-!
Where `available_at` comes from: a submission sets it, a retry within the budget sets it again, and no other call does.
-/

namespace TaskRunner
open Base

theorem Life.retry_availableAt (l : Life) (reason : String) (start now : ℚ) :
    (l.retry reason start now).task.availableAt =
      if l.retryable then start + l.task.spec.retryBackoffSeconds * (l.task.attempts + 1 : Int)
      else l.task.availableAt := by
  unfold Life.retry
  dsimp only
  split <;> rfl

namespace InMemoryTaskQueue

/-- The call makes the task wait until `due`: for its delay from the submission on, or for its backoff, once more with
every attempt, from the retry on. -/
inductive Schedules (q : InMemoryTaskQueue) : Call → String → ℚ → Prop where
  | submitted {task : Submission} {clock : Clock} (new : task.taskId ∉ q.tasks) (room : q.depth < q.maxDepth) :
      Schedules q (.submit task clock) task.taskId (clock 0 + task.spec.normalized.delaySeconds)
  | batched {tasks : List Submission} {clock : Clock} {i : ℕ} {task : Submission}
      (new : (Call.submitMany tasks clock).Issued q) (place : tasks[i]? = some task) (room : q.depth + i < q.maxDepth) :
      Schedules q (.submitMany tasks clock) task.taskId (clock (2 * i) + task.spec.normalized.delaySeconds)
  | retried {id reason : String} {clock : Clock} {l : Life} (alive : q.life id = some l) (budget : l.retryable) :
      Schedules q (.retry id reason clock) id
        (clock 0 + l.task.spec.retryBackoffSeconds * (l.task.attempts + 1 : Int))
  | expired {id : String} {clock : Clock} {k : ℕ} {l : Life} (alive : q.life id = some l) (late : l.Overdue (clock 0))
      (budget : l.retryable) :
      Schedules q (.requeueExpiredLeases clock) id
        (clock k + l.task.spec.retryBackoffSeconds * (l.task.attempts + 1 : Int))

variable {q : InMemoryTaskQueue} {call : Call} {id : String}

theorem Schedules.issued {due : ℚ} (schedules : Schedules q call id due) : call.Issued q := by
  cases schedules with
  | submitted new => exact new
  | batched new => exact new
  | retried => trivial
  | expired => trivial

/-! ### Submissions -/

theorem queued_availableAt (task : Submission) (now : ℚ) :
    (queued task now).availableAt = now + task.spec.normalized.delaySeconds :=
  congrArg (fun spec => now + TaskSpec.delaySeconds spec) (TaskSpec.normalized_normalized task.spec)

/-- What a submission lets in is as it was filed, and the older tasks stay. -/
theorem submit_introduces (rep : Represented q) (submission : Submission) (new : submission.taskId ∉ q.tasks)
    (clock : Clock) {task : TaskEnvelope} (named : (q.submit submission.envelope clock).2.task? id = some task) :
    q.task? id = some task ∨
      q.depth < q.maxDepth ∧ submission.taskId = id ∧ task = queued submission (clock 0) := by
  by_cases full : q.maxDepth ≤ q.depth
  · rw [submit_full full] at named
    exact Or.inl named
  · obtain ⟨r, result, admitted⟩ := submit_exact rep (not_le.mp full) submission new clock
    rw [result] at named
    obtain ⟨ref, found, rfl⟩ := Option.map_eq_some_iff.mp named
    change r.tasks.get? id = some ref at found
    rw [admitted.tasks, Dict.get?_set] at found
    split at found
    · rename_i same
      obtain rfl := Option.some.inj found
      exact Or.inr ⟨not_le.mp full, same.symm, admitted.own⟩
    · left
      rw [task?, found, Option.map_some, Option.some.injEq]
      exact (admitted.other rep found).symm

theorem submitMany_introduces (rep : Represented q) (batch : List Submission)
    (new : ∀ submission ∈ batch, submission.taskId ∉ q.tasks) (distinct : (batch.map Submission.taskId).Nodup)
    (clock : Clock) {task : TaskEnvelope}
    (named : (q.submitMany (batch.map Submission.envelope) clock).2.task? id = some task) :
    q.task? id = some task ∨ ∃ (i : ℕ) (submission : Submission), batch[i]? = some submission ∧
      q.depth + i < q.maxDepth ∧ submission.taskId = id ∧ task = queued submission (clock (2 * i)) := by
  induction batch generalizing q clock with
  | nil => exact Or.inl named
  | cons submission rest ih =>
    have here := new submission List.mem_cons_self
    have first := @submit_introduces q id rep submission here clock task
    rw [List.map_cons] at named
    by_cases full : q.maxDepth ≤ q.depth
    · rw [submitMany, submit_full full] at named
      exact Or.inl named
    · obtain ⟨r, result, admitted⟩ := submit_exact rep (not_le.mp full) submission here clock
      rw [submitMany_cons result] at named
      rw [result] at first
      rcases ih admitted.represented (admitted.fresh new distinct) (List.nodup_cons.mp distinct).2 (clock.later 2) named
        with old | ⟨i, other, place, room, same, filed⟩
      · refine (first old).imp_right fun given => ⟨0, submission, rfl, ?_⟩
        rw [Nat.cast_zero, add_zero]
        exact given
      · refine Or.inr ⟨i + 1, other, place, ?_, same, ?_⟩
        · rw [admitted.depth rep here, admitted.maxDepth] at room
          push_cast
          omega
        · rw [filed, Clock.later, show 2 + 2 * i = 2 * (i + 1) by omega]

/-! ### One call -/

/-- A known task is made to wait by a retry only. -/
theorem Effect.scheduled {l l' : Life} (alive : q.life id = some l) (effect : Effect q call id l l') :
    Schedules q call id l'.task.availableAt ∨
      l.task.availableAt = l'.task.availableAt ∧ ∀ due, ¬ Schedules q call id due := by
  have known : id ∈ q.tasks := (life_isSome q id).mp (Option.isSome_of_eq_some alive)
  cases call with
  | submit =>
    rw [show l' = l from effect]
    refine Or.inr ⟨rfl, fun due schedules => ?_⟩
    cases schedules with
    | submitted new => exact new known
  | submitMany =>
    rw [show l' = l from effect]
    refine Or.inr ⟨rfl, fun due schedules => ?_⟩
    cases schedules with
    | batched new place => exact new.1 _ (List.mem_of_getElem? place) known
  | reserve =>
    refine Or.inr ⟨?_, fun due schedules => by cases schedules⟩
    unfold Effect at effect
    dsimp only at effect
    split at effect
    · obtain ⟨_, m, settles, _, rfl⟩ := effect
      rw [← settles.task]
      rfl
    · exact congrArg TaskEnvelope.availableAt effect.task.symm
  | complete =>
    refine Or.inr ⟨?_, fun due schedules => by cases schedules⟩
    rw [show l' = _ from effect]
    split <;> rfl
  | cancel =>
    refine Or.inr ⟨?_, fun due schedules => by cases schedules⟩
    rw [show l' = _ from effect]
    split <;> rfl
  | snapshot =>
    refine Or.inr ⟨?_, fun due schedules => by cases schedules⟩
    exact congrArg TaskEnvelope.availableAt (Life.Settles.task effect).symm
  | retry taskId reason clock =>
    rw [show l' = _ from effect]
    by_cases same : taskId = id
    · subst same
      rw [if_pos rfl, Life.retry_availableAt]
      by_cases budget : l.retryable
      · rw [if_pos budget]
        exact Or.inl (.retried alive budget)
      · refine Or.inr ⟨(if_neg budget).symm, fun due schedules => ?_⟩
        cases schedules with
        | retried alive' within =>
          obtain rfl := Option.some.inj (alive'.symm.trans alive)
          exact budget within
    · rw [if_neg same]
      refine Or.inr ⟨rfl, fun due schedules => ?_⟩
      cases schedules with
      | retried => exact same rfl
  | requeueExpiredLeases clock =>
    obtain ⟨overdue, spared⟩ := effect
    by_cases late : l.Overdue (clock 0)
    · obtain ⟨k, rfl⟩ := overdue late
      rw [Life.retry_availableAt]
      by_cases budget : l.retryable
      · rw [if_pos budget]
        exact Or.inl (.expired alive late budget)
      · refine Or.inr ⟨(if_neg budget).symm, fun due schedules => ?_⟩
        cases schedules with
        | expired alive' _ within =>
          obtain rfl := Option.some.inj (alive'.symm.trans alive)
          exact budget within
    · rw [spared late]
      refine Or.inr ⟨rfl, fun due schedules => ?_⟩
      cases schedules with
      | expired alive' overdue' =>
        obtain rfl := Option.some.inj (alive'.symm.trans alive)
        exact late overdue'

/-- A task that was not known is made to wait by its submission. -/
theorem exec_introduces (rep : Represented q) (issued : call.Issued q) (unknown : q.task? id = none)
    {task : TaskEnvelope} (named : (q.exec call).task? id = some task) : Schedules q call id task.availableAt := by
  have absent : q.task? id ≠ some task := by
    rw [unknown]
    exact nofun
  by_cases submits : call.submits = true
  · cases call with
    | submit submission clock =>
      obtain ⟨room, rfl, rfl⟩ := (submit_introduces rep submission issued clock named).resolve_left absent
      rw [queued_availableAt]
      exact .submitted issued room
    | submitMany tasks clock =>
      obtain ⟨i, submission, place, room, rfl, rfl⟩ :=
        (submitMany_introduces rep tasks issued.1 issued.2 clock named).resolve_left absent
      rw [queued_availableAt]
      exact .batched issued place room
    | _ => cases submits
  · obtain ⟨ref, found, _⟩ := Option.map_eq_some_iff.mp named
    rw [(exec_stepped rep call issued).tasks (Bool.eq_false_iff.mpr submits)] at found
    rw [task?, found] at unknown
    cases unknown

/-- Either the call makes the task wait until it is available, or the task has been waiting until then already and no
call tells it otherwise. -/
theorem step_scheduled (rep : Represented q) (call : Call) {task : TaskEnvelope}
    (named : (q.step call).task? id = some task) :
    Schedules q call id task.availableAt ∨
      (∃ before, q.task? id = some before ∧ before.availableAt = task.availableAt) ∧
        ∀ due, ¬ Schedules q call id due := by
  by_cases issued : call.Issued q
  · rw [step_issued issued] at named
    cases known : q.task? id with
    | none => exact Or.inl (exec_introduces rep issued known named)
    | some before =>
      obtain ⟨l, alive, rfl⟩ := life_of_task? known
      obtain ⟨l', alive', effect⟩ := (exec_stepped rep call issued).lives id l alive
      obtain rfl := Option.some.inj ((task?_of_life alive').symm.trans named)
      exact (effect.scheduled alive).imp_right fun given => ⟨⟨_, rfl, given.1⟩, given.2⟩
  · rw [step_refused issued] at named
    exact Or.inr ⟨⟨task, named, rfl⟩, fun due schedules => issued schedules.issued⟩

end InMemoryTaskQueue

end TaskRunner
