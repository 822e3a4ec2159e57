import TaskRunner.Queue.Custody
import TaskRunner.Scheduler.System

/-!
The scheduler refines the queue: whatever the event loop and the threads do, the queue has only gone through
the calls they made, one after another.
-/

namespace TaskRunner
open Base InMemoryTaskQueue

/-! ### Worker bookkeeping -/

namespace SchedulerEngine

/-- No worker object changes its id, its queues or its labels, and a name newly registered is that of a new object. -/
structure Registry (e e' : SchedulerEngine) : Prop where
  allocated : e.workersAllocated ≤ e'.workersAllocated
  names : ∀ ref < e.workersAllocated, (e'.workerObjects ref).workerId = (e.workerObjects ref).workerId
  routes : ∀ ref < e.workersAllocated, (e'.workerObjects ref).queues = (e.workerObjects ref).queues ∧
    (e'.workerObjects ref).labels = (e.workerObjects ref).labels
  workers : ∀ name ref, e'.workers.get? name = some ref → e.workers.get? name = some ref ∨
    e.workersAllocated ≤ ref ∧ ref < e'.workersAllocated ∧ (e'.workerObjects ref).workerId = name

theorem Registry.same {e e' : SchedulerEngine} (workers : e'.workers = e.workers)
    (objects : e'.workerObjects = e.workerObjects) (allocated : e'.workersAllocated = e.workersAllocated) :
    Registry e e' where
  allocated := le_of_eq allocated.symm
  names ref _ := by rw [objects]
  routes ref _ := by rw [objects]; exact ⟨rfl, rfl⟩
  workers name ref found := Or.inl (by rw [← workers]; exact found)

theorem Registry.trans {e e' e'' : SchedulerEngine} (first : Registry e e') (last : Registry e' e'') :
    Registry e e'' where
  allocated := first.allocated.trans last.allocated
  names ref old := (last.names ref (Nat.lt_of_lt_of_le old first.allocated)).trans (first.names ref old)
  routes ref old := by
    obtain ⟨queues, labels⟩ := last.routes ref (Nat.lt_of_lt_of_le old first.allocated)
    obtain ⟨queues', labels'⟩ := first.routes ref old
    exact ⟨queues.trans queues', labels.trans labels'⟩
  workers name ref found := by
    rcases last.workers name ref found with found | ⟨new, there, named⟩
    · apply (first.workers name ref found).imp_right
      intro given
      obtain ⟨new, there, named⟩ := given
      exact ⟨new, Nat.lt_of_lt_of_le there last.allocated, (last.names ref there).trans named⟩
    · exact Or.inr ⟨first.allocated.trans new, there, named⟩

/-- The engine differs in its workers and its store only. -/
structure Bookkeeping (e e' : SchedulerEngine) : Prop where
  queue : e'.queue = e.queue
  completedTasks : e'.completedTasks = e.completedTasks
  config : e'.config = e.config
  registry : Registry e e'

theorem Bookkeeping.refl (e : SchedulerEngine) : Bookkeeping e e := ⟨rfl, rfl, rfl, .same rfl rfl rfl⟩

theorem Bookkeeping.trans {e e' e'' : SchedulerEngine} (first : Bookkeeping e e') (last : Bookkeeping e' e'') :
    Bookkeeping e e'' where
  queue := last.queue.trans first.queue
  completedTasks := last.completedTasks.trans first.completedTasks
  config := last.config.trans first.config
  registry := first.registry.trans last.registry

/-- Every change of a worker's fields is followed by its write to the store. -/
theorem bookkeeping_worker (e : SchedulerEngine) (worker : WorkerRef) {f : WorkerInfo → WorkerInfo}
    (keeps : ∀ w, (f w).workerId = w.workerId ∧ (f w).queues = w.queues ∧ (f w).labels = w.labels) :
    Bookkeeping e ((e.assignWorker worker f).storeWorker worker) := by
  have kept : ∀ ref, ((e.assignWorker worker f).workerObjects ref).workerId = (e.workerObjects ref).workerId ∧
      ((e.assignWorker worker f).workerObjects ref).queues = (e.workerObjects ref).queues ∧
      ((e.assignWorker worker f).workerObjects ref).labels = (e.workerObjects ref).labels := by
    intro ref
    unfold assignWorker
    dsimp only
    by_cases same : ref = worker
    · subst same
      rw [Function.update_self]
      exact keeps _
    · rw [Function.update_of_ne same]
      exact ⟨rfl, rfl, rfl⟩
  exact ⟨rfl, rfl, rfl, le_refl _, fun ref _ => (kept ref).1, fun ref _ => (kept ref).2, fun _ _ found => Or.inl found⟩

theorem bookkeeping_registerWorker (e : SchedulerEngine) (worker : WorkerInfo) (now : ℚ) :
    Bookkeeping e (e.registerWorker worker now) := by
  have kept : ∀ ref < e.workersAllocated, (e.registerWorker worker now).workerObjects ref = e.workerObjects ref :=
    fun ref old => Function.update_of_ne (Nat.ne_of_lt old) _ _
  refine ⟨rfl, rfl, rfl, Nat.le_succ _, fun ref old => ?_, fun ref old => ?_, fun name ref found => ?_⟩
  · rw [kept ref old]
  · rw [kept ref old]
    exact ⟨rfl, rfl⟩
  · change (e.workers.set worker.workerId e.workersAllocated).get? name = some ref at found
    rw [Dict.get?_set] at found
    split at found
    · rename_i same
      obtain rfl := Option.some.inj found
      refine Or.inr ⟨le_refl _, Nat.lt_succ_self _, ?_⟩
      show (Function.update e.workerObjects e.workersAllocated _ e.workersAllocated).workerId = name
      rw [Function.update_self, same]
    · exact Or.inl found

theorem bookkeeping_heartbeat (e : SchedulerEngine) (workerId : String) (runningTasks : Int) (now : ℚ) :
    Bookkeeping e (e.heartbeat workerId runningTasks now) := by
  unfold heartbeat
  split
  · exact .refl e
  · exact bookkeeping_worker e _ fun _ => ⟨rfl, rfl, rfl⟩

theorem bookkeeping_noteReserved (e : SchedulerEngine) (worker : WorkerRef) : Bookkeeping e (e.noteReserved worker) :=
  bookkeeping_worker e worker fun _ => ⟨rfl, rfl, rfl⟩

theorem bookkeeping_noteReported (e : SchedulerEngine) (workerId : String) :
    Bookkeeping e (e.noteReported workerId) := by
  unfold noteReported
  split
  · exact .refl e
  · exact bookkeeping_worker e _ fun _ => ⟨rfl, rfl, rfl⟩

theorem bookkeeping_reapHeartbeats (now : ℚ) (workers : List WorkerRef) (e : SchedulerEngine) (clock : Clock) :
    Bookkeeping e (reapHeartbeats now workers e clock) := by
  induction workers generalizing e clock with
  | nil => exact .refl e
  | cons worker rest ih =>
    unfold reapHeartbeats
    dsimp only
    split
    · have offline := bookkeeping_worker e worker (f := fun w => { w with status := .offline }) fun _ => ⟨rfl, rfl, rfl⟩
      have marked : Bookkeeping e { (e.assignWorker worker fun w => { w with status := .offline }).storeWorker worker
          with store := ((e.assignWorker worker fun w => { w with status := .offline }).storeWorker
            worker).store.markWorkerOffline (e.workerObjects worker).workerId (clock 0) } :=
        ⟨offline.queue, offline.completedTasks, offline.config,
          offline.registry.trans (.same rfl rfl rfl)⟩
      exact marked.trans (ih _ _)
    · exact ih _ _

end SchedulerEngine

namespace System

/-! ### What a step can be -/

/-- What a step does. It leaves the system as it is where the event loop is busy or what the event is about is not there,
and makes no call into the queue then. -/
inductive Steps (s : System) : Event → System → Prop where
  | stays {event : Event} (silent : s.queueCall event = none) : Steps s event s
  | submit {task : Submission} {clock : Clock} (new : task.taskId ∉ s.engine.queue.tasks) (free : s.idle = true) :
      Steps s (.submit task clock) (s.resume (s.engine.queue.submit task.envelope clock) .storeTask)
  | batchRefused {tasks : List Submission} {clock : Clock} {error : QueueError} {queue : InMemoryTaskQueue}
      (new : (∀ task ∈ tasks, task.taskId ∉ s.engine.queue.tasks) ∧ (tasks.map Submission.taskId).Nodup)
      (free : s.idle = true)
      (result : s.engine.queue.submitMany (tasks.map Submission.envelope) clock = (.error error, queue)) :
      Steps s (.submitBatch tasks clock) { s with engine := { s.engine with queue } }
  | submitBatch {tasks : List Submission} {clock : Clock} {refs : List TaskRef} {queue : InMemoryTaskQueue}
      (new : (∀ task ∈ tasks, task.taskId ∉ s.engine.queue.tasks) ∧ (tasks.map Submission.taskId).Nodup)
      (free : s.idle = true)
      (result : s.engine.queue.submitMany (tasks.map Submission.envelope) clock = (.ok refs, queue)) :
      Steps s (.submitBatch tasks clock) { s with engine := { s.engine with queue }, frame := .storeTasks refs }
  | registerWorker {worker : WorkerInfo} {now : ℚ} (free : s.idle = true) :
      Steps s (.registerWorker worker now) { s with engine := s.engine.registerWorker worker now }
  | heartbeat {workerId : String} {runningTasks : Int} {now : ℚ} (free : s.idle = true) :
      Steps s (.heartbeat workerId runningTasks now) { s with engine := s.engine.heartbeat workerId runningTasks now }
  | reserveTask {workerId : String} {timeout : ℚ} {worker : WorkerRef} (free : s.idle = true)
      (reservable : s.engine.reservable workerId = some worker) :
      Steps s (.reserveTask workerId timeout)
        { s with calls := s.calls.set s.nextCall { worker, timeout, phase := .scheduled }, nextCall := s.nextCall + 1 }
  | reserveEnters {call : ℕ} {monotonic : ℚ} {worker : WorkerRef} {timeout : ℚ}
      (found : s.calls.get? call = some { worker, timeout, phase := .scheduled }) :
      Steps s (.reserveEnters call monotonic) { s with
        calls := s.calls.set call
          { worker, timeout, phase := .waiting (decide (s.engine.completedTasks ≠ ∅)) (monotonic + timeout) } }
  | reservePass {call : ℕ} {clock : Clock} {monotonic : ℚ} {worker : WorkerRef} {timeout : ℚ} {shared : Bool}
      {deadline : ℚ} (found : s.calls.get? call = some { worker, timeout, phase := .waiting shared deadline }) :
      Steps s (.reservePass call clock monotonic)
        (s.passCall call { worker, timeout, phase := .waiting shared deadline } shared deadline clock monotonic)
  | returnsNone {call : ℕ} {worker : WorkerRef} {timeout : ℚ} (free : s.idle = true)
      (found : s.calls.get? call = some { worker, timeout, phase := .returned none }) :
      Steps s (.reserveReturns call) { s with calls := s.calls.erase call }
  | returnsTask {call : ℕ} {worker : WorkerRef} {timeout : ℚ} {task : TaskRef} (free : s.idle = true)
      (found : s.calls.get? call = some { worker, timeout, phase := .returned (some task) }) :
      Steps s (.reserveReturns call) { s with
        calls := s.calls.erase call, engine := s.engine.noteReserved worker, frame := .storeTask task }
  | reportResult {result : TaskResult} {task : TaskRef} (free : s.idle = true)
      (known : s.engine.queue.get result.taskId = .ok task) :
      Steps s (.reportResult result)
        { s with engine := s.engine.noteReported result.workerId, frame := .settleReport result }
  | cancelTask {taskId : String} (free : s.idle = true) :
      Steps s (.cancelTask taskId) (s.resume (s.engine.queue.cancel taskId) .storeTask)
  | retryTask {taskId : String} {clock : Clock} (free : s.idle = true) :
      Steps s (.retryTask taskId clock) (s.resume (s.engine.queue.retry taskId "manual retry" clock) .storeTask)
  | queueSnapshot {now : ℚ} (free : s.idle = true) :
      Steps s (.queueSnapshot now) { s with engine := { s.engine with queue := (s.engine.queue.snapshot now).2 } }
  | heartbeatReaper {clock : Clock} (free : s.idle = true) :
      Steps s (.heartbeatReaper clock) { s with engine := s.engine.heartbeatReaper clock }
  | expiryFails {clock : Clock} {error : QueueError} {queue : InMemoryTaskQueue}
      (result : s.engine.queue.requeueExpiredLeases clock = (.error error, queue)) :
      Steps s (.requeueExpired clock) { s with engine := { s.engine with queue } }
  | requeueExpired {clock : Clock} {refs : List TaskRef} {queue : InMemoryTaskQueue}
      (result : s.engine.queue.requeueExpiredLeases clock = (.ok refs, queue)) :
      Steps s (.requeueExpired clock) { s with engine := { s.engine with queue }, reaped := s.reaped ++ [refs] }
  | leaseReaperResumes {index : ℕ} {refs : List TaskRef} (free : s.idle = true)
      (found : s.reaped[index]? = some refs) :
      Steps s (.leaseReaperResumes index) { s with reaped := s.reaped.eraseIdx index, frame := .storeTasks refs }
  | proceed {clock : Clock} : Steps s (.proceed clock) (s.proceed clock)

theorem whenIdle_steps {s next : System} {event : Event} (begins : s.idle = true → Steps s event next)
    (silent : ¬ s.idle = true → s.queueCall event = none) : Steps s event (s.whenIdle next) := by
  unfold whenIdle
  split
  · rename_i free
    exact begins free
  · rename_i busy
    exact .stays (silent busy)

theorem step_steps (s : System) (event : Event) : Steps s event (s.step event) := by
  cases event with
  | submit task clock =>
    by_cases known : task.taskId ∈ s.engine.queue.tasks
    · rw [step, if_pos known]
      exact .stays (if_pos known)
    · rw [step, if_neg known]
      exact whenIdle_steps (.submit known) fun busy => by rw [queueCall, if_neg known, if_neg busy]
  | submitBatch tasks clock =>
    by_cases new : (∀ task ∈ tasks, task.taskId ∉ s.engine.queue.tasks) ∧ (tasks.map Submission.taskId).Nodup
    · rw [step, if_pos new]
      apply whenIdle_steps
      · intro free
        split <;> rename_i result
        · exact .batchRefused new free result
        · exact .submitBatch new free result
      · intro busy
        rw [queueCall, if_pos new, if_neg busy]
    · rw [step, if_neg new]
      exact .stays (if_neg new)
  | registerWorker worker now => exact whenIdle_steps .registerWorker fun _ => rfl
  | heartbeat workerId runningTasks now => exact whenIdle_steps .heartbeat fun _ => rfl
  | reserveTask workerId timeout =>
    apply whenIdle_steps
    · intro free
      split
      · exact .stays rfl
      · rename_i worker reservable
        exact .reserveTask free reservable
    · intro _
      rfl
  | reserveEnters call monotonic =>
    simp only [step]
    split
    · rename_i worker timeout found
      exact .reserveEnters found
    · exact .stays rfl
  | reservePass call clock monotonic =>
    simp only [step]
    split
    · rename_i worker timeout shared deadline found
      exact .reservePass found
    · apply Steps.stays
      simp only [queueCall]
  | reserveReturns call =>
    apply whenIdle_steps
    · intro free
      split
      · rename_i worker timeout found
        exact .returnsNone free found
      · rename_i worker timeout task found
        exact .returnsTask free found
      · exact .stays rfl
    · intro _
      rfl
  | reportResult result =>
    apply whenIdle_steps
    · intro free
      split
      · exact .stays rfl
      · rename_i task known
        exact .reportResult free known
    · intro _
      rfl
  | cancelTask taskId => exact whenIdle_steps .cancelTask fun busy => if_neg busy
  | retryTask taskId clock => exact whenIdle_steps .retryTask fun busy => if_neg busy
  | queueSnapshot now => exact whenIdle_steps .queueSnapshot fun busy => if_neg busy
  | heartbeatReaper clock => exact whenIdle_steps .heartbeatReaper fun _ => rfl
  | requeueExpired clock =>
    simp only [step]
    split <;> rename_i result
    · exact .expiryFails result
    · exact .requeueExpired result
  | leaseReaperResumes index =>
    apply whenIdle_steps
    · intro free
      split
      · exact .stays rfl
      · rename_i refs found
        exact .leaseReaperResumes free found
    · intro _
      rfl
  | proceed clock => exact .proceed

/-! ### The calls into the queue -/

/-- The queue calls of an event, as a run of the queue takes them. -/
def queueCalls (s : System) (event : Event) : List Call := (s.queueCall event).toList

theorem resume_queue (s : System) (outcome : Except QueueError TaskRef × InMemoryTaskQueue) (frame : TaskRef → Frame) :
    (s.resume outcome frame).engine.queue = outcome.2 := by
  unfold resume
  dsimp only
  split <;> rfl

theorem passCall_queue (s : System) (call : ℕ) (c : ReserveCall) (shared : Bool) (deadline : ℚ) (clock : Clock)
    (monotonic : ℚ) :
    (s.passCall call c shared deadline clock monotonic).engine.queue =
      (s.engine.queue.reserve (s.engine.workerObjects c.worker) (s.completedFor shared) s.engine.config.leaseSeconds
        clock).2 := by
  unfold passCall
  split <;> rename_i result <;> rw [result]

theorem settleReport_queue (e : SchedulerEngine) (result : TaskResult) (clock : Clock) :
    (e.settleReport result clock).2.queue = e.queue.exec (reportCall result clock) := by
  unfold SchedulerEngine.settleReport reportCall
  by_cases succeeded : result.status = .succeeded
  · simp only [succeeded, if_true, exec]
  · by_cases cancelled : result.status = .cancelled
    · simp [cancelled, exec]
    · simp only [succeeded, cancelled, if_false, exec]

theorem reportCall_issued (q : InMemoryTaskQueue) (result : TaskResult) (clock : Clock) :
    (reportCall result clock).Issued q := by
  unfold reportCall
  split
  · exact Or.inl rfl
  · split
    · exact Or.inr rfl
    · trivial

theorem proceed_queue (s : System) (clock : Clock) :
    (s.proceed clock).engine.queue = s.queueStep (.proceed clock) := by
  unfold queueStep queueCall proceed
  cases s.frame with
  | settleReport result =>
    show _ = s.engine.queue.step (reportCall result clock)
    rw [step_issued (reportCall_issued _ result clock), ← settleReport_queue]
    dsimp only
    split <;> rename_i settled <;> rw [settled]
  | storeTasks tasks => cases tasks <;> rfl
  | storeReport result task => exact congrArg (·.queue) (s.engine.storeReport_changes result task clock)
  | _ => rfl

theorem Steps.queue {s t : System} {event : Event} (steps : Steps s event t) : t.engine.queue = s.queueStep event := by
  have called : ∀ {call : Call}, s.queueCall event = some call → call.Issued s.engine.queue →
      t.engine.queue = s.engine.queue.exec call → t.engine.queue = s.queueStep event := by
    intro call made issued same
    rw [queueStep, made, same]
    exact (step_issued issued).symm
  cases steps with
  | stays silent => rw [queueStep, silent]
  | submit new free =>
    exact called (by rw [queueCall, if_neg new, if_pos free]) (show Call.Issued _ (.submit ..) from new) (resume_queue ..)
  | batchRefused new free result =>
    refine called (by rw [queueCall, if_pos new, if_pos free]) (show Call.Issued _ (.submitMany ..) from new) ?_
    rw [exec, result]
  | submitBatch new free result =>
    refine called (by rw [queueCall, if_pos new, if_pos free]) (show Call.Issued _ (.submitMany ..) from new) ?_
    rw [exec, result]
  | @reservePass call clock monotonic worker timeout shared deadline found =>
    have made : s.queueCall (.reservePass call clock monotonic) = some (.reserve (s.engine.workerObjects worker)
        (s.completedFor shared) s.engine.config.leaseSeconds clock) := by
      simp only [queueCall, found]
    exact called made trivial (passCall_queue ..)
  | cancelTask free => exact called (if_pos free) (show Call.Issued _ (.cancel _) from trivial) (resume_queue ..)
  | retryTask free => exact called (if_pos free) (show Call.Issued _ (.retry ..) from trivial) (resume_queue ..)
  | queueSnapshot free => exact called (if_pos free) (show Call.Issued _ (.snapshot _) from trivial) rfl
  | expiryFails result | requeueExpired result =>
    refine called rfl (show Call.Issued _ (.requeueExpiredLeases _) from trivial) ?_
    rw [exec, result]
  | heartbeat => exact (SchedulerEngine.bookkeeping_heartbeat ..).queue
  | reportResult => exact (SchedulerEngine.bookkeeping_noteReported ..).queue
  | heartbeatReaper => exact (SchedulerEngine.bookkeeping_reapHeartbeats ..).queue
  | proceed => exact proceed_queue s _
  | registerWorker | reserveTask | reserveEnters | returnsNone | returnsTask | leaseReaperResumes => rfl

/-- Each event takes the queue through the call it makes, and no further. -/
theorem step_queue (s : System) (event : Event) : (s.step event).engine.queue = s.queueStep event :=
  (step_steps s event).queue

/-! ### Lifting -/

/-- What holds of the queue and survives the event's call holds of it afterwards. -/
theorem step_keeps {I : InMemoryTaskQueue → Prop} {s : System} {event : Event} (here : I s.engine.queue)
    (kept : ∀ call, s.queueCall event = some call → I (s.engine.queue.step call)) :
    I (s.step event).engine.queue := by
  rw [step_queue, queueStep]
  split
  · exact here
  · rename_i call made
    exact kept call made

theorem represented_step {s : System} (rep : Represented s.engine.queue) (event : Event) :
    Represented (s.step event).engine.queue :=
  step_keeps (I := Represented) rep fun call _ => step_represented rep call

/-- A task keeps its envelope. -/
theorem step_found {s : System} (rep : Represented s.engine.queue) (event : Event) {id : String} {task : TaskRef}
    (found : s.engine.queue.tasks.get? id = some task) : (s.step event).engine.queue.tasks.get? id = some task :=
  step_keeps (I := fun q => q.tasks.get? id = some task) found fun call _ => step_reference rep call found

theorem step_simulates (s : System) (event : Event) :
    (s.step event).engine.queue = Machine.run InMemoryTaskQueue.step s.engine.queue (s.queueCalls event) := by
  rw [step_queue, queueStep, queueCalls]
  split <;> rename_i made <;> rw [made] <;> rfl

/-- The calls a run of the scheduler makes into its queue. -/
def callsOf (config : Settings) (events : List Event) : List Call :=
  Machine.collect step queueCalls (init config) events

theorem after_queue (config : Settings) (events : List Event) :
    (after config events).engine.queue = runCalls config.maxQueueDepth (callsOf config events) :=
  Machine.run_simulates (a := fun s : System => s.engine.queue) step_simulates (init config) events

/-- What holds along the calls of a run holds of the call of each event. -/
theorem along_calls {P : InMemoryTaskQueue → Call → Prop} (config : Settings) (events : List Event) :
    Machine.Along InMemoryTaskQueue.step P (InMemoryTaskQueue.init config.maxQueueDepth) (callsOf config events) ↔
      Machine.Along step (fun s event => ∀ call ∈ s.queueCall event, P s.engine.queue call) (init config) events := by
  have one : ∀ (s : System) (event : Event),
      Machine.Along InMemoryTaskQueue.step P s.engine.queue (s.queueCalls event) ↔
        ∀ call ∈ s.queueCall event, P s.engine.queue call := by
    intro s event
    unfold queueCalls
    cases s.queueCall event with
    | none => exact iff_of_true trivial fun _ member => by cases member
    | some call =>
      rw [Option.toList_some]
      exact ⟨fun given made member => Option.mem_some_iff.mp member ▸ given.1,
        fun given => ⟨given call rfl, trivial⟩⟩
  refine (Machine.along_simulates (a := fun s : System => s.engine.queue) step_simulates (init config) events).trans ?_
  exact ⟨Machine.Along.imp fun s event => (one s event).mp, Machine.Along.imp fun s event => (one s event).mpr⟩

theorem after_represented (config : Settings) (events : List Event) :
    Represented (after config events).engine.queue := by
  rw [after_queue]
  exact runCalls_represented _ _

theorem after_everywhere {I : Life → Prop} (stable : Life.Stable I) (config : Settings) (events : List Event) :
    Everywhere I (after config events).engine.queue := by
  rw [after_queue]
  exact runCalls_everywhere stable _ _

theorem step_everywhere {I : Life → Prop} (stable : Life.Stable I) {s : System}
    (held : Represented s.engine.queue ∧ Everywhere I s.engine.queue) (event : Event) :
    Represented (s.step event).engine.queue ∧ Everywhere I (s.step event).engine.queue :=
  step_keeps (I := fun q => Represented q ∧ Everywhere I q) held fun call _ =>
    ⟨step_represented held.1 call, InMemoryTaskQueue.step_everywhere stable held.1 held.2 call⟩

/-! ### What the events leave alone -/

theorem frame_of_idle {s : System} (free : s.idle = true) : s.frame = .idle := by
  unfold idle at free
  split at free
  · assumption
  · cases free

/-- The frames a coroutine begins with. -/
def opening : Frame → Bool
  | .noteCompleted .. | .storeReport .. => false
  | _ => true

/-- Only the queue, the workers, the calls and the store may differ, and the event loop goes on where it stood
or begins a coroutine. -/
structure Stays (s t : System) : Prop where
  completedTasks : t.engine.completedTasks = s.engine.completedTasks
  config : t.engine.config = s.engine.config
  registry : SchedulerEngine.Registry s.engine t.engine
  frame : t.frame = s.frame ∨ s.idle = true ∧ opening t.frame = true

theorem Stays.refl (s : System) : Stays s s := ⟨rfl, rfl, .same rfl rfl rfl, Or.inl rfl⟩

theorem stays_bookkeeping {s t : System} (kept : SchedulerEngine.Bookkeeping s.engine t.engine)
    (frame : t.frame = s.frame ∨ s.idle = true ∧ opening t.frame = true) : Stays s t :=
  ⟨kept.completedTasks, kept.config, kept.registry, frame⟩

theorem stays_resume {s : System} (free : s.idle = true) (outcome : Except QueueError TaskRef × InMemoryTaskQueue) :
    Stays s (s.resume outcome .storeTask) := by
  unfold resume
  dsimp only
  split
  · exact ⟨rfl, rfl, .same rfl rfl rfl, Or.inr ⟨free, rfl⟩⟩
  · exact ⟨rfl, rfl, .same rfl rfl rfl, Or.inr ⟨free, rfl⟩⟩

theorem passCall_stays (s : System) (call : ℕ) (c : ReserveCall) (shared : Bool) (deadline : ℚ) (clock : Clock)
    (monotonic : ℚ) : Stays s (s.passCall call c shared deadline clock monotonic) := by
  unfold passCall
  split <;> exact ⟨rfl, rfl, .same rfl rfl rfl, Or.inl rfl⟩

theorem Steps.untouched {s t : System} {event : Event} (steps : Steps s event t)
    (other : ∀ clock, event ≠ .proceed clock) : Stays s t := by
  cases steps with
  | stays => exact .refl s
  | submit new free => exact stays_resume free _
  | cancelTask free => exact stays_resume free _
  | retryTask free => exact stays_resume free _
  | registerWorker => exact stays_bookkeeping (SchedulerEngine.bookkeeping_registerWorker ..) (Or.inl rfl)
  | heartbeat => exact stays_bookkeeping (SchedulerEngine.bookkeeping_heartbeat ..) (Or.inl rfl)
  | heartbeatReaper => exact stays_bookkeeping (SchedulerEngine.bookkeeping_reapHeartbeats ..) (Or.inl rfl)
  | returnsTask free => exact stays_bookkeeping (SchedulerEngine.bookkeeping_noteReserved ..) (Or.inr ⟨free, rfl⟩)
  | reportResult free => exact stays_bookkeeping (SchedulerEngine.bookkeeping_noteReported ..) (Or.inr ⟨free, rfl⟩)
  | submitBatch new free => exact ⟨rfl, rfl, .same rfl rfl rfl, Or.inr ⟨free, rfl⟩⟩
  | leaseReaperResumes free => exact ⟨rfl, rfl, .same rfl rfl rfl, Or.inr ⟨free, rfl⟩⟩
  | reservePass => exact passCall_stays ..
  | batchRefused | reserveTask | reserveEnters | returnsNone | queueSnapshot | expiryFails | requeueExpired =>
    exact ⟨rfl, rfl, .same rfl rfl rfl, Or.inl rfl⟩
  | proceed => exact (other _ rfl).elim

theorem step_stays (s : System) {event : Event} (other : ∀ clock, event ≠ .proceed clock) : Stays s (s.step event) :=
  (step_steps s event).untouched other

/-- An event is a section of the running coroutine, or it leaves that one alone. -/
theorem proceed_or_stays (s : System) (event : Event) :
    (∃ clock, event = .proceed clock) ∨ Stays s (s.step event) := by
  by_cases running : ∃ clock, event = .proceed clock
  · exact Or.inl running
  · exact Or.inr (step_stays s fun clock same => running ⟨clock, same⟩)

theorem settleReport_kept {e e' : SchedulerEngine} {result : TaskResult} {clock : Clock}
    {outcome : Except QueueError TaskRef} (settled : e.settleReport result clock = (outcome, e')) :
    ∃ queue, e' = { e with queue } := ⟨_, (Prod.mk.inj settled).2.symm⟩

theorem proceed_workers (s : System) (clock : Clock) :
    (s.proceed clock).engine.config = s.engine.config ∧
      (s.proceed clock).engine.workers = s.engine.workers ∧
      (s.proceed clock).engine.workerObjects = s.engine.workerObjects ∧
      (s.proceed clock).engine.workersAllocated = s.engine.workersAllocated := by
  unfold proceed
  cases s.frame with
  | settleReport result =>
    dsimp only
    split <;> rename_i settled <;> obtain ⟨queue, rfl⟩ := settleReport_kept settled <;>
      exact ⟨rfl, rfl, rfl, rfl⟩
  | storeTasks tasks => cases tasks <;> exact ⟨rfl, rfl, rfl, rfl⟩
  | storeReport result task =>
    dsimp only
    rw [SchedulerEngine.storeReport_changes]
    exact ⟨rfl, rfl, rfl, rfl⟩
  | _ => exact ⟨rfl, rfl, rfl, rfl⟩

/-- `completed_tasks` grows in one section of `report_result` only. -/
theorem proceed_completed (s : System) (clock : Clock) :
    (s.proceed clock).engine.completedTasks =
      match s.frame with
      | .noteCompleted result _ => insert result.taskId s.engine.completedTasks
      | _ => s.engine.completedTasks := by
  unfold proceed
  cases s.frame with
  | settleReport result =>
    dsimp only
    split <;> rename_i settled <;> obtain ⟨queue, rfl⟩ := settleReport_kept settled <;> rfl
  | storeTasks tasks => cases tasks <;> rfl
  | storeReport result task => exact congrArg (·.completedTasks) (s.engine.storeReport_changes result task clock)
  | _ => rfl

theorem proceed_noteCompleted {s : System} {clock : Clock} {result : TaskResult} {task : TaskRef}
    (next : (s.proceed clock).frame = .noteCompleted result task) :
    s.frame = .settleReport result ∧ result.status = .succeeded := by
  unfold proceed at next
  split at next
  · rename_i frame
    rw [frame] at next
    cases next
  · cases next
  · cases next
  · dsimp only at next
    split at next <;> cases next
  · rename_i reported frame
    split at next
    · cases next
    · dsimp only at next
      split at next
      · rename_i succeeded
        cases next
        exact ⟨frame, succeeded⟩
      · cases next
  · cases next
  · cases next

theorem step_config (s : System) (event : Event) : (s.step event).engine.config = s.engine.config := by
  rcases proceed_or_stays s event with ⟨clock, rfl⟩ | stays
  · exact (proceed_workers s clock).1
  · exact stays.config

theorem after_config (config : Settings) (events : List Event) : (after config events).engine.config = config :=
  Machine.run_invariant (I := fun s : System => s.engine.config = config)
    (fun s event same => (step_config s event).trans same) rfl events

/-! ### Which event makes a call -/

/-- Where a call of the queue comes from, for the calls one event alone makes. -/
def MadeBy (s : System) (event : Event) : Call → Prop
  | .reserve worker completed leaseSeconds clock =>
    ∃ call monotonic c shared deadline, event = .reservePass call clock monotonic ∧ s.calls.get? call = some c ∧
      c.phase = .waiting shared deadline ∧ worker = s.engine.workerObjects c.worker ∧
      completed = s.completedFor shared ∧ leaseSeconds = s.engine.config.leaseSeconds
  | .complete taskId status _ =>
    ∃ clock result, event = .proceed clock ∧ s.frame = .settleReport result ∧ result.taskId = taskId ∧
      result.status = status
  | .requeueExpiredLeases clock => event = .requeueExpired clock
  | _ => True

theorem queueCall_madeBy {s : System} {event : Event} {call : Call} (made : s.queueCall event = some call) :
    s.MadeBy event call := by
  cases event with
  | submit task clock =>
    simp only [queueCall] at made
    split at made
    · cases made
    · split at made <;> cases made
      trivial
  | submitBatch tasks clock =>
    simp only [queueCall] at made
    split at made
    · split at made <;> cases made
      trivial
    · cases made
  | reservePass call clock monotonic =>
    simp only [queueCall] at made
    split at made
    · rename_i worker timeout shared deadline found
      cases made
      exact ⟨call, monotonic, _, shared, deadline, rfl, found, rfl, rfl, rfl, rfl⟩
    · cases made
  | cancelTask | retryTask | queueSnapshot =>
    simp only [queueCall] at made
    split at made <;> cases made
    trivial
  | requeueExpired clock =>
    cases made
    rfl
  | proceed clock =>
    simp only [queueCall] at made
    split at made
    · rename_i result frame
      obtain rfl := Option.some.inj made
      unfold reportCall
      split
      · rename_i succeeded
        exact ⟨clock, result, rfl, frame, rfl, succeeded⟩
      · split
        · rename_i cancelled
          exact ⟨clock, result, rfl, frame, rfl, cancelled⟩
        · trivial
    · cases made
  | _ => cases made

/-- A dispatch is a pass of some call, made with the worker object the call looked up. -/
theorem dispatched_pass {s : System} {event : Event} {id : String} (dispatched : id ∈ s.dispatched event) :
    ∃ call clock monotonic c shared deadline, event = .reservePass call clock monotonic ∧
      s.calls.get? call = some c ∧ c.phase = .waiting shared deadline ∧
      s.engine.queue.handed (.reserve (s.engine.workerObjects c.worker) (s.completedFor shared)
        s.engine.config.leaseSeconds clock) = some id := by
  obtain ⟨made, known, handed⟩ := Option.bind_eq_some_iff.mp dispatched
  cases made with
  | reserve worker completed leaseSeconds clock =>
    obtain ⟨call, monotonic, c, shared, deadline, rfl, found, waiting, rfl, rfl, rfl⟩ := queueCall_madeBy known
    exact ⟨call, clock, monotonic, c, shared, deadline, rfl, found, waiting, handed⟩
  | _ => cases handed

end System

end TaskRunner
