import TaskRunner.Grpc.Messages
import TaskRunner.Scheduler.Charges
import TaskRunner.Scheduler.Provenance

/-!
The service between the scheduler and its clients: `SchedulerClient` of `grpc/client.py`, `SchedulerServicer` of
`grpc/server.py`, and what a worker is handed of a spec that crossed the wire twice.
-/

namespace TaskRunner
open Base InMemoryTaskQueue

/-- The requests of the service. -/
inductive Request where
  | submitTask (spec : Pb2.TaskSpec)
  | registerWorker (worker : Pb2.WorkerInfo)
  | heartbeat (workerId : String) (runningTasks : Int32Field)
  | reserveTask (workerId : String) (timeoutSeconds : ℚ)
  | reportResult (result : Pb2.TaskResult)
  | cancelTask (taskId : String)
  | retryTask (taskId : String)

structure Pb2.ReserveTaskResponse where
  found : Bool
  task : Option Pb2.TaskEnvelope := none

namespace SchedulerClient

section

variable (dumps : Json → String) (loads : String → Option Json)

def submit (spec : TaskSpec) : Except ValueError Request := do
  return .submitTask (← Codec.specToProto dumps spec)

def registerWorker (worker : WorkerInfo) : Except ValueError Request := do
  return .registerWorker (← Codec.workerToProto worker)

def heartbeat (workerId : String) (runningTasks : Int) : Except ValueError Request := do
  return .heartbeat workerId (← Int32Field.of runningTasks)

def reserve (workerId : String) (timeoutSeconds : ℚ) : Request := .reserveTask workerId timeoutSeconds

def reportResult (result : TaskResult) : Request := .reportResult (Codec.resultToProto dumps result)

def cancel (taskId : String) : Request := .cancelTask taskId

def retry (taskId : String) : Request := .retryTask taskId

end

end SchedulerClient

namespace SchedulerServicer

/-- The engine call that a request is answered by. `taskId` is the id a submission would draw, `clock` what the service
reads the time by. -/
def event (order : SetOrder) (loads : String → Option Json) (taskId : String) (clock : Clock) :
    Request → Except ValueError Event
  | .submitTask spec => do
    let spec ← Codec.specFromProto loads spec
    return .submit { spec, taskId, createdAt := clock 0, availableAt := clock 1 } (clock.later 2)
  | .registerWorker worker => do
    return .registerWorker (← Codec.workerFromProto order worker clock) (clock 2)
  | .heartbeat workerId runningTasks => return .heartbeat workerId runningTasks.val (clock 0)
  | .reserveTask workerId timeoutSeconds => return .reserveTask workerId (Codec.orElse 0 timeoutSeconds 1)
  | .reportResult result => return .reportResult (← Codec.resultFromProto loads result)
  | .cancelTask taskId => return .cancelTask taskId
  | .retryTask taskId => return .retryTask taskId clock

/-- The response to a reservation. -/
def reserveTask (dumps : Json → String) : Option TaskEnvelope → Except ValueError Pb2.ReserveTaskResponse
  | none => return { found := false }
  | some task => return { found := true, task := some (← Codec.taskToProto dumps task) }

end SchedulerServicer

section

variable (order : SetOrder) (dumps : Json → String) (loads : String → Option Json)

/-- The submission is what the service made of a client's request to submit the spec. -/
structure Sent (spec : TaskSpec) (submission : Submission) : Prop where
  fits : spec.Transportable
  undone : ∀ value ∈ spec.payload.values, loads (dumps value) = some value
  served : ∃ clock, (SchedulerClient.submit dumps spec >>= SchedulerServicer.event order loads submission.taskId clock) =
    .ok (.submit submission (clock.later 2))

end

namespace TaskSpec

theorem Transportable.refilled {spec : TaskSpec} (fits : spec.Transportable) : spec.refilled.Transportable := by
  refine ⟨refilled_normalized fits.normalized, ?_, fits.maxRetries, fits.batchKey⟩
  show Codec.orElse 0 spec.priority 100 < 2 ^ 31
  unfold Codec.orElse
  split
  · decide
  · exact fits.priority

end TaskSpec

variable {order : SetOrder} {dumps : Json → String} {loads : String → Option Json}

/-- A request to submit a spec submits what the service reads of it. -/
theorem submit_served {spec received : TaskSpec} (read : Codec.specOverWire dumps loads spec = .ok received)
    (taskId : String) (clock : Clock) :
    (SchedulerClient.submit dumps spec >>= SchedulerServicer.event order loads taskId clock) =
      .ok (.submit { spec := received, taskId, createdAt := clock 0, availableAt := clock 1 } (clock.later 2)) := by
  rw [Codec.specOverWire] at read
  unfold SchedulerClient.submit
  cases encoded : Codec.specToProto dumps spec with
  | error error =>
    rw [encoded] at read
    cases read
  | ok message =>
    rw [encoded] at read
    change Codec.specFromProto loads message = _ at read
    show SchedulerServicer.event order loads taskId clock (.submitTask message) = _
    rw [SchedulerServicer.event, read]
    rfl

/-- The service submits the spec as the decoder refilled it. -/
theorem Sent.spec {spec : TaskSpec} {submission : Submission} (sent : Sent order dumps loads spec submission) :
    submission.spec = spec.refilled := by
  obtain ⟨clock, served⟩ := sent.served
  rw [submit_served (Codec.specOverWire_eq sent.fits sent.undone), Except.ok.injEq, Event.submit.injEq] at served
  rw [← served.1]

end TaskRunner
