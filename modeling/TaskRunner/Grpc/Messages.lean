import TaskRunner.Grpc.Codec
import TaskRunner.Queue.Broker

/-!
The other two messages of `taskrunner.proto` and what `grpc/codec.py` makes of them: the worker that registers, and the
result it reports.
-/

namespace TaskRunner
open Base

/-- The order in which Python iterates the set of a list's items. -/
structure SetOrder where
  list : List String → List String
  nodup : ∀ items, (list items).Nodup
  mem_list : ∀ items item, item ∈ list items ↔ item ∈ items

namespace Pb2

structure WorkerInfo where
  workerId : String
  host : String
  pid : Int32Field
  queues : List String
  capacity : Int32Field
  labels : List String
  status : String
  runningTasks : Int32Field

structure TaskResult where
  taskId : String
  workerId : String
  status : String
  resultJson : String
  error : String
  startedAt : ℚ
  finishedAt : ℚ

end Pb2

namespace Codec

section

variable (order : SetOrder) (dumps : Json → String) (loads : String → Option Json)

def workerToProto (worker : WorkerInfo) : Except ValueError Pb2.WorkerInfo := do
  let pid ← Int32Field.of worker.pid
  let capacity ← Int32Field.of worker.capacity
  let runningTasks ← Int32Field.of worker.runningTasks
  return {
    workerId := worker.workerId
    host := worker.host
    pid
    queues := worker.queues.mergeSort (· ≤ ·)
    capacity
    labels := sortedSet worker.labels
    status := worker.status.value
    runningTasks }

/-- The two times a message does not carry are those of its arrival. -/
def workerFromProto (message : Pb2.WorkerInfo) (clock : Clock) : Except ValueError WorkerInfo := do
  let status ← WorkerStatus.ofValue (orElse "" message.status WorkerStatus.starting.value)
  return {
    workerId := message.workerId
    host := message.host
    pid := message.pid.val
    queues := order.list (orElse [] message.queues ["default"])
    capacity := orElse 0 message.capacity.val 1
    labels := message.labels.toFinset
    status
    runningTasks := message.runningTasks.val
    startedAt := clock 0
    lastHeartbeat := clock 1 }

def resultToProto (result : TaskResult) : Pb2.TaskResult where
  taskId := result.taskId
  workerId := result.workerId
  status := result.status.value
  resultJson := dumps result.result
  error := result.error.getD ""
  startedAt := result.startedAt
  finishedAt := result.finishedAt

/-- The value a result text stands for: none when it is empty, and the text itself when it is no JSON. -/
def readResult (resultJson : String) : Json :=
  if resultJson = "" then .null else (loads resultJson).getD (.str resultJson)

def resultFromProto (message : Pb2.TaskResult) : Except ValueError TaskResult := do
  let status ← TaskStatus.ofValue (orElse "" message.status TaskStatus.failed.value)
  return {
    taskId := message.taskId
    workerId := message.workerId
    status
    startedAt := message.startedAt
    finishedAt := message.finishedAt
    result := readResult loads message.resultJson
    error := orNone message.error }

/-- A worker as the scheduler reads it off the wire. -/
def workerOverWire (worker : WorkerInfo) (clock : Clock) : Except ValueError WorkerInfo := do
  workerFromProto order (← workerToProto worker) clock

end

end Codec

/-! ### Round trips -/

/-- The integers of a worker fit their fields. -/
structure WorkerInfo.Transportable (worker : WorkerInfo) : Prop where
  pid : -2 ^ 31 ≤ worker.pid ∧ worker.pid < 2 ^ 31
  capacity : -2 ^ 31 ≤ worker.capacity ∧ worker.capacity < 2 ^ 31
  runningTasks : -2 ^ 31 ≤ worker.runningTasks ∧ worker.runningTasks < 2 ^ 31

/-- The two workers are the same but for their times and the order of their queues. -/
structure SameWorker (first second : WorkerInfo) : Prop where
  workerId : first.workerId = second.workerId
  host : first.host = second.host
  pid : first.pid = second.pid
  queues : ∀ queue, queue ∈ first.queues ↔ queue ∈ second.queues
  capacity : first.capacity = second.capacity
  labels : first.labels = second.labels
  status : first.status = second.status
  runningTasks : first.runningTasks = second.runningTasks

theorem SameWorker.accepts {first second : WorkerInfo} (same : SameWorker first second) (task : TaskEnvelope) :
    first.accepts task = second.accepts task := by
  rw [Bool.eq_iff_iff, WorkerInfo.accepts_iff, WorkerInfo.accepts_iff, same.queues, same.labels, same.status]

namespace Codec

variable {order : SetOrder} {dumps : Json → String} {loads : String → Option Json}

theorem workerOverWire_eq {worker : WorkerInfo} (fits : worker.Transportable) (clock : Clock) :
    workerOverWire order worker clock = .ok { worker with
      queues := order.list (orElse [] (worker.queues.mergeSort (· ≤ ·)) ["default"])
      capacity := orElse 0 worker.capacity 1
      startedAt := clock 0
      lastHeartbeat := clock 1 } := by
  have status : orElse "" worker.status.value WorkerStatus.starting.value = worker.status.value := by
    refine orElse_of_ne ?_ _
    cases worker.status <;> decide
  rw [workerOverWire, workerToProto, Int32Field.of_room fits.pid, Int32Field.of_room fits.capacity,
    Int32Field.of_room fits.runningTasks]
  show workerFromProto order _ clock = _
  simp only [workerFromProto, status, WorkerStatus.ofValue_value, toFinset_sortedSet]
  rfl

theorem sorted_eq_nil_iff {queues : List String} : queues.mergeSort (· ≤ ·) = [] ↔ queues = [] := by
  rw [← List.length_eq_zero_iff, List.length_mergeSort, List.length_eq_zero_iff]

/-- A worker that has queues and slots is registered as it is, and no other is. -/
theorem worker_roundtrip_iff {worker : WorkerInfo} (fits : worker.Transportable) (clock : Clock) :
    (∃ received, workerOverWire order worker clock = .ok received ∧ SameWorker received worker) ↔
      worker.queues ≠ [] ∧ worker.capacity ≠ 0 := by
  rw [workerOverWire_eq fits clock]
  constructor
  · rintro ⟨received, same, kept⟩
    obtain rfl := Except.ok.inj same
    refine ⟨fun none => ?_, (orElse_eq_iff Int.one_ne_zero).mp kept.capacity⟩
    have served := (kept.queues "default").mp
    simp only [none, List.mergeSort_nil, orElse, if_true, order.mem_list, List.mem_singleton, List.not_mem_nil] at served
    exact served trivial
  · rintro ⟨queues, capacity⟩
    refine ⟨_, rfl, rfl, rfl, rfl, fun queue => ?_, orElse_of_ne capacity 1, rfl, rfl, rfl⟩
    rw [orElse_of_ne (fun none => queues (sorted_eq_nil_iff.mp none)), order.mem_list, List.mem_mergeSort]

def sampleWire : WorkerInfo where
  workerId := "w"
  host := "localhost"
  pid := 7
  queues := ["default", "io"]
  capacity := 2
  labels := {"gpu"}
  startedAt := 0
  lastHeartbeat := 0

theorem worker_roundtrip_sample :
    ∃ received, workerOverWire ⟨List.dedup, List.nodup_dedup, fun _ _ => List.mem_dedup⟩ sampleWire (fun _ => 1) =
      .ok received ∧ SameWorker received sampleWire :=
  (worker_roundtrip_iff ⟨by decide, by decide, by decide⟩ fun _ => 1).mpr ⟨by decide, by decide⟩

end Codec

end TaskRunner
