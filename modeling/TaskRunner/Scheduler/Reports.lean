import TaskRunner.Scheduler.Routing

/-!
Reports that come too late. `report_result` never looks at who holds the task, so what such a report leaves
alone depends on the two statuses only.
-/

namespace TaskRunner
open Base InMemoryTaskQueue

/-- A succeeded task has no lease deadline. -/
def Life.Released (l : Life) : Prop := l.task.status = .succeeded → l.task.leaseDeadline = none

theorem Life.released_stable : Life.Stable Life.Released where
  born _ newborn _ := newborn.unassigned.2
  settles l m released settles := by
    unfold Released
    rw [settles.task]
    exact released
  dispatch _ _ _ _ _ _ succeeded := by cases succeeded
  complete _ _ _ _ _ _ := rfl
  retry l reason start now _ succeeded := by
    rw [retry_status] at succeeded
    split at succeeded <;> cases succeeded
  cancel _ _ succeeded := by cases succeeded

namespace System

/-! ### Success is recorded -/

theorem step_succeeded {q : InMemoryTaskQueue} (rep : Represented q) (call : Call) {id : String} {l' : Life}
    (alive' : (q.step call).life id = some l') (succeeded : l'.task.status = .succeeded) :
    (∃ l, q.life id = some l ∧ l.task.status = .succeeded) ∨
      (id ∈ q.tasks ∧ ∃ error, call = .complete id .succeeded error) := by
  cases alive : q.life id with
  | none =>
    rw [(step_birth rep call alive alive').status] at succeeded
    cases succeeded
  | some l =>
    have known : id ∈ q.tasks := (life_isSome q id).mp (Option.isSome_of_eq_some alive)
    obtain ⟨m, after, same | ⟨issued, effect⟩⟩ := step_life rep call alive
    · obtain rfl : m = l' := Option.some.inj (after.symm.trans alive')
      rw [same] at succeeded
      exact Or.inl ⟨l, rfl, succeeded⟩
    · obtain rfl : m = l' := Option.some.inj (after.symm.trans alive')
      cases effect.move with
      | settle settles =>
        rw [settles.task] at succeeded
        exact Or.inl ⟨l, rfl, succeeded⟩
      | dispatch => cases succeeded
      | @complete status error made =>
        have reported : status = .succeeded := succeeded
        rw [reported] at made
        exact Or.inr ⟨known, error, made⟩
      | retry =>
        rw [Life.retry_status] at succeeded
        split at succeeded <;> cases succeeded
      | cancel => cases succeeded
      | expire =>
        rw [Life.retry_status] at succeeded
        split at succeeded <;> cases succeeded

/-- A succeeded task is in `completed_tasks`, or the event loop is about to put it there. -/
def Recorded (s : System) : Prop :=
  ∀ id l, s.engine.queue.life id = some l → l.task.status = .succeeded →
    id ∈ s.engine.completedTasks ∨ ∃ result task, s.frame = .noteCompleted result task ∧ result.taskId = id

/-- The id is in `completed_tasks`, or the event loop is about to put it there. -/
def Noted (s : System) (id : String) : Prop :=
  id ∈ s.engine.completedTasks ∨ ∃ result task, s.frame = .noteCompleted result task ∧ result.taskId = id

/-- What was noted stays so, or its section is the one that runs. -/
theorem step_noted {s : System} {id : String} (event : Event) (before : s.Noted id) : (s.step event).Noted id := by
  rcases proceed_or_stays s event with ⟨clock, rfl⟩ | stays
  · left
    show id ∈ (s.proceed clock).engine.completedTasks
    rw [proceed_completed]
    rcases before with member | ⟨result, task, frame, same⟩
    · split
      · exact Finset.mem_insert_of_mem member
      · exact member
    · rw [frame, ← same]
      exact Finset.mem_insert_self ..
  · unfold Noted
    rw [stays.completedTasks]
    apply before.imp_right
    intro given
    obtain ⟨result, task, frame, same⟩ := given
    refine ⟨result, task, ?_, same⟩
    rcases stays.frame with unmoved | ⟨free, _⟩
    · exact unmoved.trans frame
    · rw [frame_of_idle free] at frame
      cases frame

theorem proceed_settled {s : System} (rep : Represented s.engine.queue) (clock : Clock) {result : TaskResult}
    (frame : s.frame = .settleReport result) (succeeded : result.status = .succeeded)
    (known : result.taskId ∈ s.engine.queue.tasks) :
    ∃ task, (s.proceed clock).frame = .noteCompleted result task := by
  obtain ⟨task, found⟩ := Dict.exists_of_mem known
  obtain ⟨r, completed, _⟩ := complete_spec rep found .succeeded (by decide) none
  refine ⟨task, ?_⟩
  unfold proceed
  rw [frame]
  simp only [SchedulerEngine.settleReport, succeeded, if_true, completed]

theorem step_recorded {s : System} (rep : Represented s.engine.queue) (recorded : Recorded s) (event : Event) :
    Recorded (s.step event) := by
  intro id l' alive' succeeded
  have kept : s.Noted id → (s.step event).Noted id := step_noted event
  rw [step_queue, queueStep] at alive'
  cases made : s.queueCall event with
  | none =>
    rw [made] at alive'
    exact kept (recorded id l' alive' succeeded)
  | some call =>
    rw [made] at alive'
    rcases step_succeeded rep call alive' succeeded with ⟨l, alive, before⟩ | ⟨known, error, rfl⟩
    · exact kept (recorded id l alive before)
    · right
      obtain ⟨clock, result, rfl, frame, same, reported⟩ := queueCall_madeBy made
      obtain ⟨task, next⟩ := proceed_settled rep clock frame reported (by rw [same]; exact known)
      exact ⟨result, task, next, same⟩

theorem after_recorded (config : Settings) (events : List Event) : Recorded (after config events) := by
  have both : Represented (after config events).engine.queue ∧ Recorded (after config events) := by
    refine Machine.run_invariant (I := fun s : System => Represented s.engine.queue ∧ Recorded s) ?_ ?_ events
    · intro s event given
      obtain ⟨rep, recorded⟩ := given
      exact ⟨represented_step rep event, step_recorded rep recorded event⟩
    · refine ⟨represented_init _, ?_⟩
      intro id l alive
      cases alive
  exact both.2

/-! ### The whole of `report_result` -/

theorem settleReport_known {e : SchedulerEngine} (rep : Represented e.queue) {result : TaskResult} {task : TaskRef}
    (found : e.queue.tasks.get? result.taskId = some task) (clock : Clock) :
    e.settleReport result clock = (.ok task, { e with queue := e.queue.exec (reportCall result clock) }) := by
  have queue := settleReport_queue e result clock
  have outcome : (e.settleReport result clock).1 = .ok task := by
    unfold SchedulerEngine.settleReport
    by_cases succeeded : result.status = .succeeded
    · obtain ⟨r, completed, _⟩ := complete_spec rep found .succeeded (by decide) none
      simp only [succeeded, if_true, completed]
    · by_cases cancelled : result.status = .cancelled
      · obtain ⟨r, completed, _⟩ := complete_spec rep found .cancelled (by decide) result.error
        simp only [cancelled, reduceCtorEq, if_false, if_true, completed]
      · obtain ⟨r, retried, _⟩ := retry_spec rep found (orText result.error "task failed") clock
        simp only [succeeded, cancelled, if_false, retried]
  rw [Prod.ext_iff]
  exact ⟨outcome, by rw [← queue]; rfl⟩

/-- Once its queue call has returned, `report_result` goes through to its end, where only the writes can raise. -/
theorem reportResult_settled {e settled : SchedulerEngine} {result : TaskResult} {ref task : TaskRef} {clock : Clock}
    (found : e.queue.tasks.get? result.taskId = some ref)
    (returned : (e.noteReported result.workerId).settleReport result clock = (.ok task, settled)) :
    (e.reportResult result clock).2 =
      ((if result.status = .succeeded then settled.noteCompleted result.taskId else settled).storeReport result task
        (clock.later 2)).2 := by
  simp only [SchedulerEngine.reportResult, InMemoryTaskQueue.get, found, returned]
  split <;> rename_i stored <;> rw [stored]

theorem reportResult_known {e : SchedulerEngine} (rep : Represented e.queue) {result : TaskResult}
    (known : result.taskId ∈ e.queue.tasks) (clock : Clock) :
    (e.reportResult result clock).2.queue = e.queue.exec (reportCall result clock) ∧
      (e.reportResult result clock).2.completedTasks =
        if result.status = .succeeded then insert result.taskId e.completedTasks else e.completedTasks := by
  obtain ⟨task, found⟩ := Dict.exists_of_mem known
  have noted := SchedulerEngine.bookkeeping_noteReported e result.workerId
  have settled := settleReport_known (e := e.noteReported result.workerId) (by rw [noted.queue]; exact rep)
    (by rw [noted.queue]; exact found) clock
  rw [noted.queue] at settled
  rw [reportResult_settled found settled, SchedulerEngine.storeReport_changes]
  split
  · exact ⟨rfl, congrArg (insert result.taskId) noted.completedTasks⟩
  · exact ⟨rfl, noted.completedTasks⟩

/-- The sections of `report_result`, run one after another with no other event between them. -/
theorem reportResult_sections {s : System} (free : s.idle = true) (rep : Represented s.engine.queue)
    {result : TaskResult} (known : result.taskId ∈ s.engine.queue.tasks) (clock : Clock) :
    (Machine.run step s [.reportResult result, .proceed clock, .proceed (clock.later 2),
      .proceed (clock.later 2)]).engine = (s.engine.reportResult result clock).2 := by
  obtain ⟨task, found⟩ := Dict.exists_of_mem known
  have noted := SchedulerEngine.bookkeeping_noteReported s.engine result.workerId
  have settled := settleReport_known (e := s.engine.noteReported result.workerId) (by rw [noted.queue]; exact rep)
    (by rw [noted.queue]; exact found) clock
  have begun : s.step (.reportResult result) =
      { s with engine := s.engine.noteReported result.workerId, frame := .settleReport result } := by
    simp only [step, InMemoryTaskQueue.get, found, whenIdle, free, if_true]
  rw [reportResult_settled found settled]
  simp only [Machine.run, begun]
  simp only [step, proceed, settled]
  by_cases succeeded : result.status = .succeeded
  · simp only [succeeded, if_true]
  · simp only [succeeded, if_false]

/-- The report changed nothing of the task's status, attempts and lease, of its entries, of the dead letters and
of the completed set. -/
structure Untouched (e e' : SchedulerEngine) (id : String) : Prop where
  task : (e'.queue.task? id).map (fun t => (t.status, t.attempts, t.assignedWorker, t.leaseDeadline)) =
    (e.queue.task? id).map (fun t => (t.status, t.attempts, t.assignedWorker, t.leaseDeadline))
  lease : id ∈ e'.queue.inflight ↔ id ∈ e.queue.inflight
  ready : ∀ queueName, (e'.queue.ready.getD queueName []).filter (fun entry => entry.taskId = id) =
    (e.queue.ready.getD queueName []).filter (fun entry => entry.taskId = id)
  delayed : e'.queue.delayed.filter (fun entry => entry.taskId = id) =
    e.queue.delayed.filter (fun entry => entry.taskId = id)
  deadLetter : e'.queue.deadLetter = e.queue.deadLetter
  completedTasks : e'.completedTasks = e.completedTasks

theorem complete_frame (q : InMemoryTaskQueue) (id : String) {status : TaskStatus} (final : status ≠ .deadLettered)
    (error : Option String) :
    (q.complete id status error).2.ready = q.ready ∧ (q.complete id status error).2.delayed = q.delayed ∧
      (q.complete id status error).2.deadLetter = q.deadLetter ∧
      (q.complete id status error).2.inflight = q.inflight.erase id := by
  unfold complete popInflight
  cases (q.inflight.get? id).or (q.tasks.get? id) with
  | none => exact ⟨rfl, rfl, rfl, rfl⟩
  | some task =>
    simp only [if_neg final]
    exact ⟨rfl, rfl, rfl, rfl⟩

theorem complete_untouched {e e' : SchedulerEngine} {id : String} {l : Life} {status : TaskStatus}
    {error : Option String} (rep : Represented e.queue) (leased : Everywhere Life.Leased e.queue)
    (alive : e.queue.life id = some l) (final : status = .succeeded ∨ status = .cancelled)
    (same : l.task.status = status) (released : l.task.leaseDeadline = none)
    (queue : e'.queue = e.queue.exec (.complete id status error)) (completed : e'.completedTasks = e.completedTasks) :
    Untouched e e' id := by
  have closed : status ≠ .deadLettered := by rcases final with rfl | rfl <;> decide
  obtain ⟨ready, delayed, deadLetter, inflight⟩ := complete_frame e.queue id closed error
  obtain ⟨l', after, effect⟩ := (exec_stepped rep (.complete id status error) final).lives id l alive
  have unleased : id ∉ e.queue.inflight := by
    intro held
    have free : l.leased = true := by
      obtain ⟨task, _, rfl⟩ := exists_of_life alive
      exact decide_eq_true held
    have running := ((leased id l alive).running free).1
    rw [same] at running
    rcases final with rfl | rfl <;> cases running
  refine ⟨?_, ?_, ?_, ?_, ?_, completed⟩
  · rw [queue, task?_of_life after, task?_of_life alive, show l' = _ from effect, if_pos rfl]
    simp only [Option.map_some, Life.complete, same, released]
  · rw [queue]
    show id ∈ (e.queue.complete id status error).2.inflight ↔ _
    rw [inflight, Dict.mem_erase]
    exact ⟨fun held => (held.1 rfl).elim, fun held => (unleased held).elim⟩
  · intro queueName
    rw [queue]
    show ((e.queue.complete id status error).2.ready.getD queueName []).filter _ = _
    rw [ready]
  · rw [queue]
    show (e.queue.complete id status error).2.delayed.filter _ = _
    rw [delayed]
  · rw [queue]
    exact deadLetter

/-- A stale report leaves the task untouched exactly when it says of a succeeded task that it succeeded, or of a
cancelled task without a lease deadline that it was cancelled. -/
theorem stale_report_exact (config : Settings) (events : List Event) (free : (after config events).idle = true)
    (result : TaskResult) (task : TaskEnvelope)
    (named : (after config events).engine.queue.task? result.taskId = some task)
    (_stale : ¬ (task.status = .running ∧ task.assignedWorker = some result.workerId)) (clock : Clock) :
    Untouched (after config events).engine ((after config events).engine.reportResult result clock).2 result.taskId ↔
      (result.status = .succeeded ∧ task.status = .succeeded) ∨
        (result.status = .cancelled ∧ task.status = .cancelled ∧ task.leaseDeadline = none) := by
  have rep := after_represented config events
  have leased := after_everywhere Life.leased_stable config events
  obtain ⟨l, alive, rfl⟩ := life_of_task? named
  have known : result.taskId ∈ (after config events).engine.queue.tasks :=
    (life_isSome _ _).mp (Option.isSome_of_eq_some alive)
  obtain ⟨queue, completed⟩ := reportResult_known rep known clock
  obtain ⟨l', alive', effect⟩ := (exec_stepped rep _ (reportCall_issued _ result clock)).lives _ l alive
  rw [← queue] at alive'
  constructor
  · intro untouched
    have same := untouched.task
    rw [task?_of_life alive', task?_of_life alive] at same
    simp only [Option.map_some, Option.some.injEq, Prod.mk.injEq] at same
    obtain ⟨status, attempts, _, deadline⟩ := same
    unfold reportCall at effect
    split at effect
    · rename_i succeeded
      rw [show l' = _ from effect, if_pos rfl] at status
      exact Or.inl ⟨succeeded, status.symm⟩
    · split at effect
      · rename_i cancelled
        rw [show l' = _ from effect, if_pos rfl] at status deadline
        exact Or.inr ⟨cancelled, status.symm, deadline.symm⟩
      · -- any other report counts an attempt
        rw [show l' = _ from effect, if_pos rfl, Life.retry_attempts] at attempts
        omega
  · rintro (⟨reported, succeeded⟩ | ⟨reported, cancelled, released⟩)
    · have there : result.taskId ∈ (after config events).engine.completedTasks := by
        rcases after_recorded config events result.taskId l alive succeeded with member | ⟨_, _, frame, _⟩
        · exact member
        · rw [frame_of_idle free] at frame
          cases frame
      rw [if_pos reported, Finset.insert_eq_of_mem there] at completed
      simp only [reportCall, reported, if_true] at queue
      exact complete_untouched rep leased alive (Or.inl rfl) succeeded
        (after_everywhere Life.released_stable config events _ l alive succeeded) queue completed
    · have other : result.status ≠ .succeeded := by rw [reported]; decide
      rw [if_neg other] at completed
      simp only [reportCall, reported, reduceCtorEq, if_false, if_true] at queue
      exact complete_untouched rep leased alive (Or.inr rfl) cancelled released queue completed

theorem stale_report_sample :
    Untouched (after {} (sampleDispatch ++ sampleReport .succeeded 4)).engine
      ((after {} (sampleDispatch ++ sampleReport .succeeded 4)).engine.reportResult (sampleResult .succeeded 4)
        (fun _ => 5)).2 "a" := by
  obtain ⟨task, known⟩ := exists_task (after {} (sampleDispatch ++ sampleReport .succeeded 4)).engine.queue "a"
    (by decide +kernel)
  have closed : ∀ t ∈ (after {} (sampleDispatch ++ sampleReport .succeeded 4)).engine.queue.task? "a",
      t.status = .succeeded := by decide +kernel
  have succeeded := closed task known
  refine (stale_report_exact {} _ (by decide +kernel) (sampleResult .succeeded 4) task known ?_ (fun _ => 5)).mpr
    (Or.inl ⟨rfl, succeeded⟩)
  rw [succeeded]
  intro running
  cases running.1

/-- The lease of the sample task expires and another worker leases the task. -/
def sampleSteal : List Event :=
  sampleDispatch ++ [.requeueExpired (fun _ => 40), .registerWorker (sampleWorker "w2") 40, .reserveTask "w2" 1,
    .reserveEnters 1 41, .reservePass 1 (fun _ => 41) 41, .reserveReturns 1, .proceed (fun _ => 41)]

/-- A late failure of the first worker takes the task from the second. -/
theorem stale_report_fails :
    ((after {} sampleSteal).engine.queue.task? "a").map (fun t => (t.status, t.assignedWorker)) =
      some (.running, some "w2") ∧
    ¬ Untouched (after {} sampleSteal).engine
      ((after {} sampleSteal).engine.reportResult (sampleResult .failed 42) (fun _ => 42)).2 "a" := by
  refine ⟨by decide +kernel, fun untouched => ?_⟩
  exact absurd untouched.task (by decide +kernel)

end System

end TaskRunner
