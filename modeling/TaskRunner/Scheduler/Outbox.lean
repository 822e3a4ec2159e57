import TaskRunner.Scheduler.Reservations
import TaskRunner.Scheduler.Reports

/-!
Writes to the tasks table that are still to be made. Whatever changes a task writes it to the store in a later
section of its coroutine: until then the running frame, a call that returned or the lease reaper owes the write.
-/

namespace TaskRunner
open Base InMemoryTaskQueue

/-- The tasks the coroutine has still to write. -/
def Frame.owes : Frame → List TaskRef
  | .idle | .settleReport _ => []
  | .storeTask task | .noteCompleted _ task | .storeReport _ task => [task]
  | .storeTasks tasks => tasks

namespace System

/-- The write of the task is still to come. -/
def Owed (s : System) (task : TaskRef) : Prop :=
  task ∈ s.frame.owes ∨ (∃ call c, s.calls.get? call = some c ∧ c.phase = .returned (some task)) ∨
    ∃ refs ∈ s.reaped, task ∈ refs

/-- No operation is in progress. -/
def Quiescent (s : System) : Prop := s.idle = true ∧ s.calls.keys = [] ∧ s.reaped = []

instance (s : System) : Decidable s.Quiescent := inferInstanceAs (Decidable (_ ∧ _ ∧ _))

/-- The ids a submission lets in. -/
def accepts (s : System) : Event → List String
  | .submit task clock =>
    if task.taskId ∈ s.engine.queue.tasks then []
    else if s.idle then
      match (s.engine.queue.submit task.envelope clock).1 with
      | .error _ => []
      | .ok _ => [task.taskId]
    else []
  | .submitBatch tasks clock =>
    if (∀ task ∈ tasks, task.taskId ∉ s.engine.queue.tasks) ∧ (tasks.map Submission.taskId).Nodup then
      if s.idle then
        match (s.engine.queue.submitMany (tasks.map Submission.envelope) clock).1 with
        | .error _ => []
        | .ok _ => tasks.map Submission.taskId
      else []
    else []
  | _ => []

/-- The ids whose `submit` or `submit_batch` has returned normally once no operation is in progress. -/
def accepted (config : Settings) (events : List Event) : List String :=
  Machine.collect step accepts (init config) events

/-! ### Only the sections of a coroutine write rows -/

theorem storeWorker_tasks (e : SchedulerEngine) (worker : WorkerRef) : (e.storeWorker worker).store.tasks = e.store.tasks :=
  SQLiteStore.upsertWorker_tasks ..

theorem noteReported_tasks (e : SchedulerEngine) (workerId : String) :
    (e.noteReported workerId).store.tasks = e.store.tasks := by
  unfold SchedulerEngine.noteReported
  split
  · rfl
  · exact storeWorker_tasks ..

theorem heartbeat_tasks (e : SchedulerEngine) (workerId : String) (runningTasks : Int) (now : ℚ) :
    (e.heartbeat workerId runningTasks now).store.tasks = e.store.tasks := by
  unfold SchedulerEngine.heartbeat
  split
  · rfl
  · exact storeWorker_tasks ..

theorem reapHeartbeats_tasks (now : ℚ) (workers : List WorkerRef) (e : SchedulerEngine) (clock : Clock) :
    (SchedulerEngine.reapHeartbeats now workers e clock).store.tasks = e.store.tasks := by
  induction workers generalizing e clock with
  | nil => rfl
  | cons worker rest ih =>
    unfold SchedulerEngine.reapHeartbeats
    dsimp only
    split
    · rw [ih]
      exact (SQLiteStore.markWorkerOffline_tasks _ _ _).trans (storeWorker_tasks ..)
    · exact ih _ _

theorem resume_tasks (s : System) (outcome : Except QueueError TaskRef × InMemoryTaskQueue) (frame : TaskRef → Frame) :
    (s.resume outcome frame).engine.store.tasks = s.engine.store.tasks := by
  unfold resume
  dsimp only
  split <;> rfl

theorem passCall_tasks (s : System) (call : ℕ) (c : ReserveCall) (shared : Bool) (deadline : ℚ) (clock : Clock)
    (monotonic : ℚ) : (s.passCall call c shared deadline clock monotonic).engine.store.tasks = s.engine.store.tasks := by
  unfold passCall
  split <;> rfl

theorem Steps.tasks {s t : System} {event : Event} (steps : Steps s event t)
    (other : ∀ clock, event ≠ .proceed clock) : t.engine.store.tasks = s.engine.store.tasks := by
  cases steps with
  | submit | cancelTask | retryTask => exact resume_tasks ..
  | reservePass => exact passCall_tasks ..
  | registerWorker => exact storeWorker_tasks ..
  | heartbeat => exact heartbeat_tasks ..
  | returnsTask => exact storeWorker_tasks ..
  | reportResult => exact noteReported_tasks ..
  | heartbeatReaper => exact reapHeartbeats_tasks ..
  | proceed => exact (other _ rfl).elim
  | _ => rfl

theorem step_tasks (s : System) {event : Event} (other : ∀ clock, event ≠ .proceed clock) :
    (s.step event).engine.store.tasks = s.engine.store.tasks := (step_steps s event).tasks other

/-! ### Writes that stay to be made -/

theorem resume_reaped (s : System) (outcome : Except QueueError TaskRef × InMemoryTaskQueue) (frame : TaskRef → Frame) :
    (s.resume outcome frame).reaped = s.reaped := by
  unfold resume
  dsimp only
  split <;> rfl

theorem proceed_reaped (s : System) (clock : Clock) : (s.proceed clock).reaped = s.reaped := by
  unfold proceed
  cases s.frame with
  | settleReport result =>
    dsimp only
    split <;> rfl
  | storeTasks tasks => cases tasks <;> rfl
  | _ => rfl

theorem passCall_reaped (s : System) (call : ℕ) (c : ReserveCall) (shared : Bool) (deadline : ℚ) (clock : Clock)
    (monotonic : ℚ) : (s.passCall call c shared deadline clock monotonic).reaped = s.reaped := by
  unfold passCall
  split <;> rfl

/-- What a step does to the lists the reaper threads returned: nothing, or it adds one, or begins to store one. -/
inductive ReapedAfter (s : System) (event : Event) (t : System) : Prop where
  | kept (reaped : t.reaped = s.reaped)
  | added (clock : Clock) (refs : List TaskRef) (expires : event = .requeueExpired clock)
      (outcome : (s.engine.queue.requeueExpiredLeases clock).1 = .ok refs) (reaped : t.reaped = s.reaped ++ [refs])
  | taken (index : ℕ) (refs : List TaskRef) (found : s.reaped[index]? = some refs)
      (reaped : t.reaped = s.reaped.eraseIdx index) (frame : t.frame = .storeTasks refs)

theorem Steps.reaped {s t : System} {event : Event} (steps : Steps s event t) : ReapedAfter s event t := by
  cases steps with
  | submit | cancelTask | retryTask => exact .kept (resume_reaped ..)
  | reservePass => exact .kept (passCall_reaped ..)
  | @requeueExpired clock refs queue result => exact .added clock refs rfl (by rw [result]) rfl
  | @leaseReaperResumes index refs free found => exact .taken index refs found rfl rfl
  | proceed => exact .kept (proceed_reaped s _)
  | _ => exact .kept rfl

/-- An event other than a section of the running coroutine settles no write. -/
theorem step_owed {s : System} (rep : Represented s.engine.queue) (wired : Wired s) {event : Event}
    (other : ∀ clock, event ≠ .proceed clock) {task : TaskRef} (owed : s.Owed task) : (s.step event).Owed task := by
  rcases owed with framed | ⟨call, c, found, returned⟩ | ⟨refs, waiting, member⟩
  · left
    rcases (step_stays s other).frame with same | ⟨free, _⟩
    · rw [same]
      exact framed
    · rw [frame_of_idle free] at framed
      cases framed
  · by_cases answered : event = .reserveReturns call
    · subst answered
      simp only [step, whenIdle]
      split
      · obtain ⟨worker, timeout, phase⟩ := c
        obtain rfl : phase = _ := returned
        rw [found]
        exact Or.inl List.mem_cons_self
      · exact Or.inr (Or.inl ⟨call, c, found, returned⟩)
    · exact Or.inr (Or.inl ⟨call, c, step_returned rep found returned (wired.fresh call c found) answered, returned⟩)
  · cases (step_steps s event).reaped with
    | kept reaped => exact Or.inr (Or.inr ⟨refs, by rw [reaped]; exact waiting, member⟩)
    | added clock more expires outcome reaped =>
      exact Or.inr (Or.inr ⟨refs, by rw [reaped]; exact List.mem_append_left _ waiting, member⟩)
    | taken index taken there less next =>
      by_cases same : refs = taken
      · left
        rw [next, ← same]
        exact member
      · refine Or.inr (Or.inr ⟨refs, ?_, member⟩)
        rw [less]
        obtain ⟨position, inside⟩ := List.mem_iff_getElem?.mp waiting
        refine List.mem_eraseIdx_iff_getElem?.mpr ⟨position, ?_, inside⟩
        rintro rfl
        exact same (Option.some.inj (inside.symm.trans there))

/-! ### What is owed is a task -/

theorem resume_owes {s : System} {outcome : Except QueueError TaskRef × InMemoryTaskQueue} {task : TaskRef}
    (owes : task ∈ (s.resume outcome .storeTask).frame.owes) : outcome.1 = .ok task := by
  unfold resume at owes
  dsimp only at owes
  split at owes
  · cases owes
  · rename_i other ok
    obtain rfl := List.mem_singleton.mp owes
    exact ok

theorem proceed_settle {s : System} (rep : Represented s.engine.queue) {result : TaskResult}
    (frame : s.frame = .settleReport result) {task : TaskRef}
    (found : s.engine.queue.tasks.get? result.taskId = some task) (clock : Clock) :
    (s.proceed clock).frame =
      if result.status = .succeeded then .noteCompleted result task else .storeReport result task := by
  have settled := settleReport_known (e := s.engine) rep found clock
  simp only [proceed, frame, settled]

theorem proceed_unknown {s : System} (rep : Represented s.engine.queue) {result : TaskResult}
    (frame : s.frame = .settleReport result) (unknown : s.engine.queue.tasks.get? result.taskId = none) (clock : Clock) :
    (s.proceed clock).frame = .idle := by
  simp only [proceed, frame, SchedulerEngine.settleReport, complete_unknown rep unknown, retry_unknown rep unknown]
  split <;> rename_i outcome
  · rfl
  · split at outcome
    · cases outcome
    · split at outcome <;> cases outcome

/-- What a call into the queue returns is a task. -/
def Names (outcome : Except QueueError TaskRef × InMemoryTaskQueue) : Prop :=
  ∀ task, outcome.1 = .ok task → ∃ id, outcome.2.tasks.get? id = some task

theorem submit_names {q : InMemoryTaskQueue} (rep : Represented q) (submission : Submission)
    (new : submission.taskId ∉ q.tasks) (clock : Clock) : Names (q.submit submission.envelope clock) := by
  intro task ok
  rcases submit_spec rep submission new clock with ⟨_, result⟩ | ⟨r, result, submitted⟩
  · rw [result] at ok
    cases ok
  · rw [result] at ok ⊢
    obtain rfl := Except.ok.inj ok
    exact ⟨submission.taskId, by rw [submitted.tasks, Dict.get?_set_self]⟩

theorem cancel_names {q : InMemoryTaskQueue} (rep : Represented q) (taskId : String) : Names (q.cancel taskId) := by
  intro task ok
  cases found : q.tasks.get? taskId with
  | none =>
    rw [cancel_unknown found] at ok
    cases ok
  | some ref =>
    obtain ⟨r, result, acted⟩ := cancel_spec rep found
    rw [result] at ok ⊢
    obtain rfl := Except.ok.inj ok
    exact ⟨taskId, by rw [acted.tasks]; exact found⟩

theorem retry_names {q : InMemoryTaskQueue} (rep : Represented q) (taskId reason : String) (clock : Clock) :
    Names (q.retry taskId reason clock) := by
  intro task ok
  cases found : q.tasks.get? taskId with
  | none =>
    rw [retry_unknown rep found] at ok
    cases ok
  | some ref =>
    obtain ⟨r, result, acted⟩ := retry_spec rep found reason clock
    rw [result] at ok ⊢
    obtain rfl := Except.ok.inj ok
    exact ⟨taskId, by rw [acted.tasks]; exact found⟩

theorem resume_names {s : System} {outcome : Except QueueError TaskRef × InMemoryTaskQueue} (named : Names outcome)
    {task : TaskRef} (owes : task ∈ (s.resume outcome .storeTask).frame.owes) :
    ∃ id, (s.resume outcome .storeTask).engine.queue.tasks.get? id = some task := by
  rw [resume_queue]
  exact named task (resume_owes owes)

/-- A section of the running coroutine passes on what it owes, or owes the task it settled. -/
theorem proceed_owes {s : System} (rep : Represented s.engine.queue) {clock : Clock} {task : TaskRef}
    (owes : task ∈ (s.proceed clock).frame.owes) :
    task ∈ s.frame.owes ∨ ∃ id, (s.proceed clock).engine.queue.tasks.get? id = some task := by
  cases frame : s.frame with
  | settleReport result =>
    right
    cases found : s.engine.queue.tasks.get? result.taskId with
    | none =>
      rw [proceed_unknown rep frame found] at owes
      cases owes
    | some ref =>
      rw [proceed_settle rep frame found] at owes
      have same : task = ref := by
        split at owes <;> exact List.mem_singleton.mp owes
      rw [same]
      exact ⟨result.taskId, step_found rep (.proceed clock) found⟩
  | storeTasks tasks =>
    left
    cases tasks with
    | nil =>
      simp only [proceed, frame] at owes
      cases owes
    | cons first rest =>
      simp only [proceed, frame] at owes
      split at owes
      · exact List.mem_cons_of_mem _ owes
      · cases owes
  | noteCompleted result ref =>
    left
    simp only [proceed, frame] at owes
    exact owes
  | idle | storeTask | storeReport =>
    simp only [proceed, frame] at owes
    cases owes

theorem passCall_frame (s : System) (call : ℕ) (c : ReserveCall) (shared : Bool) (deadline : ℚ) (clock : Clock)
    (monotonic : ℚ) : (s.passCall call c shared deadline clock monotonic).frame = s.frame := by
  unfold passCall
  split <;> rfl

/-- A coroutine that begins owes what its call returned, or what was owed before. -/
theorem Steps.owes {s t : System} {event : Event} (steps : Steps s event t) (rep : Represented s.engine.queue)
    {task : TaskRef} (owes : task ∈ t.frame.owes) : s.Owed task ∨ ∃ id, t.engine.queue.tasks.get? id = some task := by
  cases steps with
  | @submit submission clock new free => exact Or.inr (resume_names (submit_names rep submission new clock) owes)
  | cancelTask free => exact Or.inr (resume_names (cancel_names rep _) owes)
  | retryTask free => exact Or.inr (resume_names (retry_names rep _ "manual retry" _) owes)
  | submitBatch new free result => exact Or.inr ((submitMany_refs rep _ new.1 new.2 result).2 task owes)
  | @returnsTask call worker timeout returned free found =>
    obtain rfl := List.mem_singleton.mp owes
    exact Or.inl (Or.inr (Or.inl ⟨call, _, found, rfl⟩))
  | @leaseReaperResumes index refs free found =>
    exact Or.inl (Or.inr (Or.inr ⟨refs, List.mem_of_getElem? found, owes⟩))
  | reportResult free known => cases owes
  | reservePass found =>
    rw [passCall_frame] at owes
    exact Or.inl (Or.inl owes)
  | proceed => exact (proceed_owes rep owes).imp_left Or.inl
  | _ => exact Or.inl (Or.inl owes)

/-- Every write that is owed is that of a task. -/
def Sound (s : System) : Prop := ∀ task, s.Owed task → ∃ id, s.engine.queue.tasks.get? id = some task

theorem step_sound {s : System} (rep : Represented s.engine.queue) (wired : Wired s) (sound : s.Sound) (event : Event) :
    (s.step event).Sound := by
  have kept : ∀ task, s.Owed task → ∃ id, (s.step event).engine.queue.tasks.get? id = some task := by
    intro task owed
    obtain ⟨id, found⟩ := sound task owed
    exact ⟨id, step_found rep event found⟩
  intro task owed
  rcases owed with framed | ⟨call, c, found, returned⟩ | ⟨refs, waiting, member⟩
  · exact ((step_steps s event).owes rep framed).elim (kept task) fun known => known
  · exact (step_wired rep wired event).returned call c task found returned
  · cases (step_steps s event).reaped with
    | kept reaped =>
      rw [reaped] at waiting
      exact kept task (Or.inr (Or.inr ⟨refs, waiting, member⟩))
    | added clock expired expires outcome reaped =>
      subst expires
      rw [reaped, List.mem_append, List.mem_singleton] at waiting
      rcases waiting with old | rfl
      · exact kept task (Or.inr (Or.inr ⟨refs, old, member⟩))
      · obtain ⟨r, result, _⟩ := requeue_spec rep clock
        rw [result, Except.ok.injEq] at outcome
        rw [← outcome] at member
        obtain ⟨lease, listed, rfl⟩ := List.mem_map.mp member
        have leased := (s.engine.queue.inflight.mem_entries_iff lease.1 lease.2).mp (List.mem_filter.mp listed).1
        exact ⟨lease.1, step_found rep (.requeueExpired clock) (rep.inflight _ _ leased)⟩
    | taken index taken there less next =>
      rw [less] at waiting
      exact kept task (Or.inr (Or.inr ⟨refs, List.mem_of_mem_eraseIdx waiting, member⟩))

/-! ### Every change is owed a write -/

theorem queueCall_cancel {s : System} {event : Event} {taskId : String}
    (made : s.queueCall event = some (.cancel taskId)) : event = .cancelTask taskId ∧ s.idle = true := by
  cases event with
  | submit | submitBatch | reservePass | retryTask | queueSnapshot =>
    simp only [queueCall] at made
    split at made
    · first | cases made | (split at made <;> cases made)
    · first | cases made | (split at made <;> cases made)
  | cancelTask =>
    simp only [queueCall] at made
    split at made <;> cases made
    rename_i free
    exact ⟨rfl, free⟩
  | proceed clock =>
    simp only [queueCall] at made
    split at made
    · rename_i result _
      unfold reportCall at made
      split at made
      · cases made
      · split at made <;> cases made
    · cases made
  | _ => cases made

theorem queueCall_retry {s : System} {event : Event} {taskId reason : String} {clock : Clock}
    (made : s.queueCall event = some (.retry taskId reason clock)) :
    (event = .retryTask taskId clock ∧ s.idle = true) ∨
      ∃ result, event = .proceed clock ∧ s.frame = .settleReport result ∧ result.taskId = taskId := by
  cases event with
  | submit | submitBatch | reservePass | cancelTask | queueSnapshot =>
    simp only [queueCall] at made
    split at made
    · first | cases made | (split at made <;> cases made)
    · first | cases made | (split at made <;> cases made)
  | retryTask =>
    simp only [queueCall] at made
    split at made <;> cases made
    rename_i free
    exact Or.inl ⟨rfl, free⟩
  | proceed =>
    simp only [queueCall] at made
    split at made
    · rename_i result frame
      unfold reportCall at made
      split at made
      · cases made
      · split at made <;> cases made
        exact Or.inr ⟨result, rfl, frame, rfl⟩
    · cases made
  | _ => cases made

theorem settle_owed {s : System} (rep : Represented s.engine.queue) {result : TaskResult}
    (frame : s.frame = .settleReport result) {task : TaskRef}
    (found : s.engine.queue.tasks.get? result.taskId = some task) (clock : Clock) :
    (s.step (.proceed clock)).Owed task := by
  left
  show task ∈ (s.proceed clock).frame.owes
  rw [proceed_settle rep frame found]
  split <;> exact List.mem_cons_self

theorem step_changed {s : System} (rep : Represented s.engine.queue) {id : String} {task : TaskRef}
    (found : s.engine.queue.tasks.get? id = some task) (event : Event) :
    (s.step event).engine.queue.objects task = s.engine.queue.objects task ∨ (s.step event).Owed task := by
  cases made : s.queueCall event with
  | none =>
    left
    rw [step_queue, queueStep, made]
  | some call =>
    have after : (s.step event).engine.queue = s.engine.queue.step call := by rw [step_queue, queueStep, made]
    have object : ∀ l', (s.engine.queue.step call).life id = some l' →
        l'.task = (s.engine.queue.step call).objects task := by
      intro l' alive'
      rw [life_eq (step_reference rep call found), Option.some.injEq] at alive'
      rw [← alive']
      rfl
    obtain ⟨l', alive', same | ⟨_, effect⟩⟩ := step_life rep call (life_eq found)
    · left
      rw [after, ← object l' alive', same]
      rfl
    · cases effect.move with
      | settle settles =>
        left
        rw [after, ← object _ alive', settles.task]
        rfl
      | dispatch _ handed =>
        right
        have dispatched : id ∈ s.dispatched event := by
          rw [System.dispatched, made]
          exact handed
        obtain ⟨reserve, c, other, _, _, there, known⟩ := step_dispatched rep dispatched
        obtain rfl : other = task := Option.some.inj (known.symm.trans found)
        exact Or.inr (Or.inl ⟨reserve, _, there, rfl⟩)
      | complete named =>
        subst named
        obtain ⟨clock, result, rfl, frame, same, _⟩ := queueCall_madeBy made
        exact Or.inr (settle_owed rep frame (by rw [same]; exact found) clock)
      | @retry _ clock named =>
        subst named
        rcases queueCall_retry made with ⟨rfl, free⟩ | ⟨result, rfl, frame, same⟩
        · obtain ⟨r, result, _⟩ := retry_spec rep found "manual retry" clock
          right
          left
          simp only [step, whenIdle, free, if_true, resume, result]
          exact List.mem_cons_self
        · exact Or.inr (settle_owed rep frame (by rw [same]; exact found) _)
      | cancel named =>
        subst named
        obtain ⟨rfl, free⟩ := queueCall_cancel made
        obtain ⟨r, result, _⟩ := cancel_spec rep found
        right
        left
        simp only [step, whenIdle, free, if_true, resume, result]
        exact List.mem_cons_self
      | @expire clock _ named late =>
        subst named
        obtain rfl : event = .requeueExpired clock := queueCall_madeBy made
        obtain ⟨r, result, _⟩ := requeue_spec rep clock
        let refs := (s.engine.queue.inflight.entries.filter fun lease => s.engine.queue.expired (clock 0) lease.2).map
          Prod.snd
        refine Or.inr (Or.inr (Or.inr ⟨refs, ?_, ?_⟩))
        · simp only [step, result]
          exact List.mem_append_right _ List.mem_cons_self
        · obtain ⟨held, deadline, set, past⟩ := late
          obtain ⟨other, leased⟩ := Dict.exists_of_mem (of_decide_eq_true held : id ∈ s.engine.queue.inflight)
          obtain rfl : other = task := Option.some.inj ((rep.inflight id other leased).symm.trans found)
          refine List.mem_map.mpr ⟨(id, other), List.mem_filter.mpr ⟨?_, expired_iff.mpr ⟨deadline, set, past⟩⟩, rfl⟩
          exact (s.engine.queue.inflight.mem_entries_iff id other).mpr leased

/-- A task that is let in is owed its first write. -/
theorem step_born {s : System} (rep : Represented s.engine.queue) {event : Event} {id : String}
    (accepted : id ∈ s.accepts event) :
    ∃ task, (s.step event).engine.queue.tasks.get? id = some task ∧ (s.step event).Owed task := by
  cases event with
  | submit submission clock =>
    simp only [accepts] at accepted
    split at accepted
    · cases accepted
    · rename_i new
      split at accepted
      · rename_i free
        rcases submit_spec rep submission new clock with ⟨_, result⟩ | ⟨r, result, submitted⟩
        · rw [result] at accepted
          cases accepted
        · rw [result] at accepted
          obtain rfl := List.mem_singleton.mp accepted
          simp only [step, if_neg new, whenIdle, free, if_true, resume, result]
          exact ⟨_, by rw [submitted.tasks, Dict.get?_set_self], Or.inl List.mem_cons_self⟩
      · cases accepted
  | submitBatch tasks clock =>
    simp only [accepts] at accepted
    split at accepted
    · rename_i new
      split at accepted
      · rename_i free
        simp only [step, if_pos new, whenIdle, free, if_true]
        cases result : s.engine.queue.submitMany (tasks.map Submission.envelope) clock with
        | mk outcome r =>
          rw [result] at accepted
          cases outcome with
          | error e => cases accepted
          | ok refs =>
            obtain ⟨submission, member, rfl⟩ := List.mem_map.mp accepted
            obtain ⟨ref, listed, known⟩ := (submitMany_refs rep tasks new.1 new.2 result).1 submission member
            exact ⟨ref, known, Or.inl listed⟩
      · cases accepted
    · cases accepted
  | _ => cases accepted

end System

end TaskRunner
