import TaskRunner.Scheduler.Engine

/-!
The running scheduler: one event loop, which finishes a section of a coroutine before it starts another, and
the threads of `asyncio.to_thread`, which call the queue between any two sections. A pass of `reserve` is one
event here; `Passes.lean` takes it apart. An event that cannot happen in a state leaves it as it is.
-/

namespace TaskRunner
open Base

/-- Where the event loop stands in the coroutine it runs, between two sections. -/
inductive Frame where
  | idle
  | storeTask (task : TaskRef)
  | storeTasks (tasks : List TaskRef)
  | settleReport (result : TaskResult)
  | noteCompleted (result : TaskResult) (task : TaskRef)
  | storeReport (result : TaskResult) (task : TaskRef)

/-- Where the thread of a `reserve_task` call stands. `shared` is false when the completed set was empty as
`reserve` began, so that `completed_dependencies or set()` took a set of its own. -/
inductive ReservePhase where
  | scheduled
  | waiting (shared : Bool) (deadline : ℚ)
  | returned (task : Option TaskRef)

structure ReserveCall where
  worker : WorkerRef
  timeout : ℚ
  phase : ReservePhase

structure System where
  engine : SchedulerEngine
  frame : Frame := .idle
  calls : Dict ℕ ReserveCall := Dict.empty
  nextCall : ℕ := 0
  /-- What lease-reaper threads returned and the event loop has not stored yet. -/
  reaped : List (List TaskRef) := []

inductive Event where
  | submit (task : Submission) (clock : Clock)
  | submitBatch (tasks : List Submission) (clock : Clock)
  | registerWorker (worker : WorkerInfo) (now : ℚ)
  | heartbeat (workerId : String) (runningTasks : Int) (now : ℚ)
  | reserveTask (workerId : String) (timeout : ℚ)
  | reserveEnters (call : ℕ) (monotonic : ℚ)
  | reservePass (call : ℕ) (clock : Clock) (monotonic : ℚ)
  | reserveReturns (call : ℕ)
  | reportResult (result : TaskResult)
  | cancelTask (taskId : String)
  | retryTask (taskId : String) (clock : Clock)
  | queueSnapshot (now : ℚ)
  | heartbeatReaper (clock : Clock)
  | requeueExpired (clock : Clock)
  | leaseReaperResumes (index : ℕ)
  | proceed (clock : Clock)

namespace System

def init (config : Settings) : System where
  engine := SchedulerEngine.init config

def idle (s : System) : Bool :=
  match s.frame with
  | .idle => true
  | _ => false

/-- A coroutine starts a section only when the event loop is free. -/
def whenIdle (s : System) (next : System) : System := if s.idle then next else s

/-- Continue with what a queue call returned; an exception ends the coroutine. -/
def resume (s : System) (outcome : Except QueueError TaskRef × InMemoryTaskQueue) (frame : TaskRef → Frame) : System :=
  let s := { s with engine := { s.engine with queue := outcome.2 } }
  match outcome.1 with
  | .error _ => { s with frame := .idle }
  | .ok task => { s with frame := frame task }

/-- The completed set the thread of a call tests dependencies against. -/
def completedFor (s : System) (shared : Bool) : Finset String := if shared then s.engine.completedTasks else ∅

/-- The queue's work for a waiting call: one pass under the lock, with nothing between its tests and its end, then the
decision to wait on. -/
def passCall (s : System) (call : ℕ) (c : ReserveCall) (shared : Bool) (deadline : ℚ) (clock : Clock)
    (monotonic : ℚ) : System :=
  match s.engine.queue.reserve (s.engine.workerObjects c.worker) (s.completedFor shared) s.engine.config.leaseSeconds
      clock with
  | (.error _, queue) => { s with engine := { s.engine with queue }, calls := s.calls.erase call }
  | (.ok (some task), queue) =>
    { s with engine := { s.engine with queue }, calls := s.calls.set call { c with phase := .returned (some task) } }
  | (.ok none, queue) =>
    let remaining := max 0 (deadline - monotonic)
    let phase := if c.timeout = 0 ∨ remaining = 0 then .returned none else c.phase
    { s with engine := { s.engine with queue }, calls := s.calls.set call { c with phase } }

/-- The section after the present one. -/
def proceed (s : System) (clock : Clock) : System :=
  match s.frame with
  | .idle => s
  | .storeTask task => { s with engine := (s.engine.storeTask task none (clock 0)).2, frame := .idle }
  | .storeTasks [] => { s with frame := .idle }
  | .storeTasks (task :: rest) =>
    -- a write that raises ends the loop, and with it the coroutine
    let (outcome, engine) := s.engine.storeTask task none (clock 0)
    { s with engine, frame := if outcome.isOk then .storeTasks rest else .idle }
  | .settleReport result =>
    match s.engine.settleReport result clock with
    | (.error _, engine) => { s with engine, frame := .idle }
    | (.ok task, engine) =>
      let frame := if result.status = .succeeded then .noteCompleted result task else .storeReport result task
      { s with engine, frame }
  | .noteCompleted result task =>
    { s with engine := s.engine.noteCompleted result.taskId, frame := .storeReport result task }
  | .storeReport result task => { s with engine := (s.engine.storeReport result task clock).2, frame := .idle }

def step (s : System) : Event → System
  | .submit task clock =>
    if task.taskId ∈ s.engine.queue.tasks then s
    else s.whenIdle (s.resume (s.engine.queue.submit task.envelope clock) .storeTask)
  | .submitBatch tasks clock =>
    if (∀ task ∈ tasks, task.taskId ∉ s.engine.queue.tasks) ∧ (tasks.map Submission.taskId).Nodup then
      s.whenIdle (match s.engine.queue.submitMany (tasks.map Submission.envelope) clock with
        | (.error _, queue) => { s with engine := { s.engine with queue } }
        | (.ok refs, queue) => { s with engine := { s.engine with queue }, frame := .storeTasks refs })
    else s
  | .registerWorker worker now => s.whenIdle { s with engine := s.engine.registerWorker worker now }
  | .heartbeat workerId runningTasks now =>
    s.whenIdle { s with engine := s.engine.heartbeat workerId runningTasks now }
  | .reserveTask workerId timeout =>
    s.whenIdle (match s.engine.reservable workerId with
      | none => s
      | some worker => { s with
          calls := s.calls.set s.nextCall { worker, timeout, phase := .scheduled }
          nextCall := s.nextCall + 1 })
  | .reserveEnters call monotonic =>
    match s.calls.get? call with
    | some { worker, timeout, phase := .scheduled } => { s with
        calls := s.calls.set call
          { worker, timeout, phase := .waiting (decide (s.engine.completedTasks ≠ ∅)) (monotonic + timeout) } }
    | _ => s
  | .reservePass call clock monotonic =>
    match s.calls.get? call with
    | some { worker, timeout, phase := .waiting shared deadline } =>
      s.passCall call { worker, timeout, phase := .waiting shared deadline } shared deadline clock monotonic
    | _ => s
  | .reserveReturns call =>
    s.whenIdle (match s.calls.get? call with
      | some { phase := .returned none, .. } => { s with calls := s.calls.erase call }
      | some { worker, phase := .returned (some task), .. } => { s with
          calls := s.calls.erase call
          engine := s.engine.noteReserved worker
          frame := .storeTask task }
      | _ => s)
  | .reportResult result =>
    s.whenIdle (match s.engine.queue.get result.taskId with
      | .error _ => s
      | .ok _ => { s with engine := s.engine.noteReported result.workerId, frame := .settleReport result })
  | .cancelTask taskId => s.whenIdle (s.resume (s.engine.queue.cancel taskId) .storeTask)
  | .retryTask taskId clock => s.whenIdle (s.resume (s.engine.queue.retry taskId "manual retry" clock) .storeTask)
  | .queueSnapshot now =>
    s.whenIdle { s with engine := { s.engine with queue := (s.engine.queue.snapshot now).2 } }
  | .heartbeatReaper clock => s.whenIdle { s with engine := s.engine.heartbeatReaper clock }
  | .requeueExpired clock =>
    match s.engine.queue.requeueExpiredLeases clock with
    | (.error _, queue) => { s with engine := { s.engine with queue } }
    | (.ok refs, queue) => { s with engine := { s.engine with queue }, reaped := s.reaped ++ [refs] }
  | .leaseReaperResumes index =>
    s.whenIdle (match s.reaped[index]? with
      | none => s
      | some refs => { s with reaped := s.reaped.eraseIdx index, frame := .storeTasks refs })
  | .proceed clock => s.proceed clock

def after (config : Settings) (events : List Event) : System := Machine.run step (init config) events

/-! ### What the queue sees -/

/-- The queue call of `report_result`. -/
def reportCall (result : TaskResult) (clock : Clock) : Call :=
  if result.status = .succeeded then .complete result.taskId .succeeded none
  else if result.status = .cancelled then .complete result.taskId .cancelled result.error
  else .retry result.taskId (orText result.error "task failed") clock

/-- The call an event makes into the queue. -/
def queueCall (s : System) : Event → Option Call
  | .submit task clock =>
    if task.taskId ∈ s.engine.queue.tasks then none
    else if s.idle then some (.submit task clock) else none
  | .submitBatch tasks clock =>
    if (∀ task ∈ tasks, task.taskId ∉ s.engine.queue.tasks) ∧ (tasks.map Submission.taskId).Nodup then
      if s.idle then some (.submitMany tasks clock) else none
    else none
  | .reservePass call clock _ =>
    match s.calls.get? call with
    | some { worker, phase := .waiting shared _, .. } =>
      some (.reserve (s.engine.workerObjects worker) (s.completedFor shared) s.engine.config.leaseSeconds clock)
    | _ => none
  | .cancelTask taskId => if s.idle then some (.cancel taskId) else none
  | .retryTask taskId clock => if s.idle then some (.retry taskId "manual retry" clock) else none
  | .queueSnapshot now => if s.idle then some (.snapshot now) else none
  | .requeueExpired clock => some (.requeueExpiredLeases clock)
  | .proceed clock =>
    match s.frame with
    | .settleReport result => some (reportCall result clock)
    | _ => none
  | _ => none

/-- The id of the task that a pass of a waiting `reserve` returns. -/
def dispatched (s : System) (event : Event) : Option String := (s.queueCall event).bind s.engine.queue.handed

/-- An event acts on the queue by the call it makes. -/
def queueStep (s : System) (event : Event) : InMemoryTaskQueue :=
  match s.queueCall event with
  | none => s.engine.queue
  | some call => s.engine.queue.step call

end System

end TaskRunner
