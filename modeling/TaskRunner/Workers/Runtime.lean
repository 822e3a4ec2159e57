import TaskRunner.Scheduler.System

/-!
`WorkerRuntime` of `workers/manager.py` against the scheduler: the consumer loops, which reserve, execute and
report one task after another, and the requests and responses between the two processes. Its registration and
its heartbeats are events of the scheduler like those of any other worker.
-/

namespace TaskRunner
open Base

/-- Where a consumer loop stands, with the message it waits for and what the scheduler does with it. -/
inductive Phase where
  | looping
  | requesting
  | reserving (call : ℕ)
  | returning (taskId : Option String)
  | answered (taskId : Option String)
  | executing (taskId : String)
  | reporting (result : TaskResult)
  | processing (result : TaskResult)
  | reported

/-- The scheduler's handlers are done once its event loop is free again. -/
def Phase.conclude : Phase → Phase
  | .returning taskId => .answered taskId
  | .processing _ => .reported
  | phase => phase

def Phase.awaits (call : ℕ) : Phase → Bool
  | .reserving other => other = call
  | _ => false

/-- What `TaskExecutor.execute` returns when the task's code is done or its timeout ran out. -/
def execute (taskId workerId : String) (outcome : Except String Json) (startedAt finishedAt : ℚ) : TaskResult :=
  match outcome with
  | .ok result => { taskId, workerId, status := .succeeded, startedAt, finishedAt, result, error := none }
  | .error error => { taskId, workerId, status := .failed, startedAt, finishedAt, result := .null, error := some error }

/-- The scheduler and the `n` consumers of one worker. A consumer that an exception or a cancellation ended is
not alive and takes no further step; what it had sent is still on its way. -/
structure Cluster (n : ℕ) where
  system : System
  phases : Fin n → Phase := fun _ => .looping
  alive : Fin n → Bool := fun _ => true

inductive ClusterEvent (n : ℕ) where
  | environment (event : Event)
  | request (consumer : Fin n)
  | arrive (consumer : Fin n)
  | respond (consumer : Fin n)
  | receive (consumer : Fin n)
  | finish (consumer : Fin n) (outcome : Except String Json) (startedAt finishedAt : ℚ)
  | deliver (consumer : Fin n)
  | acknowledge (consumer : Fin n)
  | fail (consumer : Fin n)

namespace Cluster

variable {n : ℕ}

def init (config : Settings) (n : ℕ) : Cluster n where
  system := System.init config

def place (k : Cluster n) (consumer : Fin n) (phase : Phase) : Cluster n :=
  { k with phases := Function.update k.phases consumer phase }

def fail (k : Cluster n) (consumer : Fin n) : Cluster n :=
  { k with alive := Function.update k.alive consumer false }

/-- A step of a consumer itself. -/
def proceed (k : Cluster n) (consumer : Fin n) (phase : Phase) : Cluster n :=
  if k.alive consumer then k.place consumer phase else k

def conclude (k : Cluster n) : Cluster n :=
  if k.system.idle then { k with phases := fun consumer => (k.phases consumer).conclude } else k

/-- The handler of a consumer's `ReserveTask` request begins. -/
def arrive (workerId : String) (k : Cluster n) (consumer : Fin n) : Cluster n :=
  match k.phases consumer with
  | .requesting =>
    if k.system.idle then
      match k.system.engine.reservable workerId with
      | none => k.place consumer (.returning none)
      | some _ =>
        { k with system := k.system.step (.reserveTask workerId 1) }.place consumer (.reserving k.system.nextCall)
    else k
  | _ => k

/-- Its thread has returned, and the handler goes on. -/
def respond (k : Cluster n) (consumer : Fin n) : Cluster n :=
  match k.phases consumer with
  | .reserving call =>
    if k.system.idle then
      match k.system.calls.get? call with
      | some { phase := .returned task, .. } =>
        { k with system := k.system.step (.reserveReturns call) }.place consumer
          (.returning (task.map fun ref => (k.system.engine.queue.objects ref).taskId))
      | _ => k
    else k
  | _ => k

/-- The handler of a consumer's `ReportResult` request begins. One that raises ends the consumer. -/
def deliver (k : Cluster n) (consumer : Fin n) : Cluster n :=
  match k.phases consumer with
  | .reporting result =>
    if k.system.idle then
      match k.system.engine.queue.get result.taskId with
      | .error _ => k.fail consumer
      | .ok _ => { k with system := k.system.step (.reportResult result) }.place consumer (.processing result)
    else k
  | _ => k

def act (workerId : String) (k : Cluster n) : ClusterEvent n → Cluster n
  | .environment (.reserveReturns call) =>
    -- the handlers of the consumers go on in `respond`
    if ∃ consumer, (k.phases consumer).awaits call then k
    else { k with system := k.system.step (.reserveReturns call) }
  | .environment event => { k with system := k.system.step event }
  | .request consumer =>
    match k.phases consumer with
    | .looping => k.proceed consumer .requesting
    | _ => k
  | .arrive consumer => k.arrive workerId consumer
  | .respond consumer => k.respond consumer
  | .receive consumer =>
    match k.phases consumer with
    | .answered none => k.proceed consumer .looping
    | .answered (some taskId) => k.proceed consumer (.executing taskId)
    | _ => k
  | .finish consumer outcome startedAt finishedAt =>
    match k.phases consumer with
    | .executing taskId =>
      k.proceed consumer (.reporting (execute taskId workerId outcome startedAt finishedAt))
    | _ => k
  | .deliver consumer => k.deliver consumer
  | .acknowledge consumer =>
    match k.phases consumer with
    | .reported => k.proceed consumer .looping
    | _ => k
  | .fail consumer => k.fail consumer

def step (workerId : String) (k : Cluster n) (event : ClusterEvent n) : Cluster n := (k.act workerId event).conclude

def after (config : Settings) (workerId : String) (events : List (ClusterEvent n)) : Cluster n :=
  Machine.run (step workerId) (init config n) events

end Cluster

/-- The leases of a worker: the tasks in flight that are assigned to it. -/
def InMemoryTaskQueue.leases (q : InMemoryTaskQueue) (workerId : String) : List TaskRef :=
  q.inflight.values.filter fun task => (q.objects task).assignedWorker = some workerId

end TaskRunner
