import Mathlib
import TaskRunner.Base.Dict

/-!
The records of `shared/models.py`. Times and durations, floats in the source, are rationals.
-/

namespace TaskRunner
open Base

/-- The values `json` reads and writes. -/
inductive Json where
  | null
  | bool (b : Bool)
  | int (n : Int)
  | float (x : ℚ)
  | str (s : String)
  | arr (items : List Json)
  | obj (fields : List (String × Json))

inductive ValueError where
  | outOfRange (value : Int)
  | notAMember (value : String)

inductive TaskKind where
  | cpu | io | async | scheduled
  deriving DecidableEq

def TaskKind.value : TaskKind → String
  | .cpu => "cpu"
  | .io => "io"
  | .async => "async"
  | .scheduled => "scheduled"

/-- `TaskKind(value)`. -/
def TaskKind.ofValue : String → Except ValueError TaskKind
  | "cpu" => .ok .cpu
  | "io" => .ok .io
  | "async" => .ok .async
  | "scheduled" => .ok .scheduled
  | value => .error (.notAMember value)

@[simp] theorem TaskKind.ofValue_value (kind : TaskKind) : TaskKind.ofValue kind.value = .ok kind := by
  cases kind <;> rfl

inductive TaskStatus where
  | pending | queued | running | acked | succeeded | failed | retrying | cancelled | deadLettered
  deriving DecidableEq

def TaskStatus.value : TaskStatus → String
  | .pending => "pending"
  | .queued => "queued"
  | .running => "running"
  | .acked => "acked"
  | .succeeded => "succeeded"
  | .failed => "failed"
  | .retrying => "retrying"
  | .cancelled => "cancelled"
  | .deadLettered => "dead_lettered"

/-- `TaskStatus(value)`. -/
def TaskStatus.ofValue : String → Except ValueError TaskStatus
  | "pending" => .ok .pending
  | "queued" => .ok .queued
  | "running" => .ok .running
  | "acked" => .ok .acked
  | "succeeded" => .ok .succeeded
  | "failed" => .ok .failed
  | "retrying" => .ok .retrying
  | "cancelled" => .ok .cancelled
  | "dead_lettered" => .ok .deadLettered
  | value => .error (.notAMember value)

@[simp] theorem TaskStatus.ofValue_value (status : TaskStatus) : TaskStatus.ofValue status.value = .ok status := by
  cases status <;> rfl

inductive WorkerStatus where
  | starting | idle | busy | draining | offline
  deriving DecidableEq

def WorkerStatus.value : WorkerStatus → String
  | .starting => "starting"
  | .idle => "idle"
  | .busy => "busy"
  | .draining => "draining"
  | .offline => "offline"

/-- `WorkerStatus(value)`. -/
def WorkerStatus.ofValue : String → Except ValueError WorkerStatus
  | "starting" => .ok .starting
  | "idle" => .ok .idle
  | "busy" => .ok .busy
  | "draining" => .ok .draining
  | "offline" => .ok .offline
  | value => .error (.notAMember value)

@[simp] theorem WorkerStatus.ofValue_value (status : WorkerStatus) : WorkerStatus.ofValue status.value = .ok status := by
  cases status <;> rfl

structure TaskSpec where
  target : String
  payload : Dict String Json := Dict.empty
  kind : TaskKind := .io
  queue : String := "default"
  priority : Int := 100
  delaySeconds : ℚ := 0
  maxRetries : Int := 3
  retryBackoffSeconds : ℚ := 3 / 2
  timeoutSeconds : ℚ := 60
  affinity : Finset String := ∅
  dependsOn : Finset String := ∅
  batchKey : Option String := none

def TaskSpec.normalized (spec : TaskSpec) : TaskSpec where
  target := spec.target
  payload := spec.payload
  kind := spec.kind
  queue := if spec.queue = "" then "default" else spec.queue
  priority := max 0 spec.priority
  delaySeconds := max 0 spec.delaySeconds
  maxRetries := max 0 spec.maxRetries
  retryBackoffSeconds := max 0 spec.retryBackoffSeconds
  timeoutSeconds := max (1 / 10) spec.timeoutSeconds
  affinity := spec.affinity
  dependsOn := spec.dependsOn
  batchKey := spec.batchKey

theorem TaskSpec.normalized_normalized (spec : TaskSpec) : spec.normalized.normalized = spec.normalized := by
  simp only [TaskSpec.normalized, ← max_assoc, max_self]
  by_cases empty : spec.queue = "" <;> simp [empty]

/-- `None` is written as JSON null. -/
def Json.ofOption : Option String → Json
  | none => .null
  | some s => .str s

def Json.ofTime : Option ℚ → Json
  | none => .null
  | some t => .float t

def Json.ofSet (s : Finset String) : Json := .arr (s.sort.map .str)

/-- `sorted` of a set. -/
def sortedSet (s : Finset String) : List String := s.sort

@[simp] theorem toFinset_sortedSet (s : Finset String) : (sortedSet s).toFinset = s := Finset.sort_toFinset ..

/-- `TaskEnvelope.to_dict()["spec"]`. -/
def TaskSpec.toDict (spec : TaskSpec) : Json :=
  .obj [("target", .str spec.target), ("payload", .obj spec.payload.entries),
    ("kind", .str spec.kind.value), ("queue", .str spec.queue), ("priority", .int spec.priority),
    ("delay_seconds", .float spec.delaySeconds), ("max_retries", .int spec.maxRetries),
    ("retry_backoff_seconds", .float spec.retryBackoffSeconds),
    ("timeout_seconds", .float spec.timeoutSeconds), ("affinity", .ofSet spec.affinity),
    ("depends_on", .ofSet spec.dependsOn), ("batch_key", .ofOption spec.batchKey)]

structure TaskEnvelope where
  spec : TaskSpec
  taskId : String
  createdAt : ℚ
  availableAt : ℚ
  attempts : Int := 0
  status : TaskStatus := .pending
  lastError : Option String := none
  assignedWorker : Option String := none
  leaseDeadline : Option ℚ := none

instance : Inhabited TaskEnvelope :=
  ⟨{ spec := { target := "" }, taskId := "", createdAt := 0, availableAt := 0 }⟩

def TaskEnvelope.toDict (task : TaskEnvelope) : Json :=
  .obj [("spec", task.spec.toDict), ("task_id", .str task.taskId), ("created_at", .float task.createdAt),
    ("available_at", .float task.availableAt), ("attempts", .int task.attempts),
    ("status", .str task.status.value), ("last_error", .ofOption task.lastError),
    ("assigned_worker", .ofOption task.assignedWorker), ("lease_deadline", .ofTime task.leaseDeadline)]

structure TaskResult where
  taskId : String
  workerId : String
  status : TaskStatus
  startedAt : ℚ
  finishedAt : ℚ
  result : Json := .null
  error : Option String := none

def TaskResult.durationSeconds (r : TaskResult) : ℚ := max 0 (r.finishedAt - r.startedAt)

def TaskResult.toDict (r : TaskResult) : Json :=
  .obj [("task_id", .str r.taskId), ("worker_id", .str r.workerId), ("status", .str r.status.value),
    ("started_at", .float r.startedAt), ("finished_at", .float r.finishedAt), ("result", r.result),
    ("error", .ofOption r.error), ("duration_seconds", .float r.durationSeconds)]

/-- `queues` lists the set in the order Python iterates it. -/
structure WorkerInfo where
  workerId : String
  host : String
  pid : Int
  queues : List String
  capacity : Int
  labels : Finset String := ∅
  status : WorkerStatus := .starting
  runningTasks : Int := 0
  startedAt : ℚ
  lastHeartbeat : ℚ

instance : Inhabited WorkerInfo :=
  ⟨{ workerId := "", host := "", pid := 0, queues := [], capacity := 0, startedAt := 0, lastHeartbeat := 0 }⟩

def WorkerInfo.accepts (worker : WorkerInfo) (task : TaskEnvelope) : Bool :=
  let queueOk := decide (task.spec.queue ∈ worker.queues)
  let affinityOk := decide (task.spec.affinity = ∅) || decide (task.spec.affinity ∩ worker.labels ≠ ∅)
  queueOk && affinityOk && (worker.status == .idle || worker.status == .busy)

theorem WorkerInfo.accepts_iff {worker : WorkerInfo} {task : TaskEnvelope} :
    worker.accepts task = true ↔
      task.spec.queue ∈ worker.queues ∧
      (task.spec.affinity = ∅ ∨ ∃ label ∈ task.spec.affinity, label ∈ worker.labels) ∧
      (worker.status = .idle ∨ worker.status = .busy) := by
  have shared : task.spec.affinity ∩ worker.labels ≠ ∅ ↔
      ∃ label ∈ task.spec.affinity, label ∈ worker.labels := by
    rw [← Finset.nonempty_iff_ne_empty]
    exact ⟨fun ⟨label, member⟩ => ⟨label, (Finset.mem_inter.mp member).1, (Finset.mem_inter.mp member).2⟩,
      fun ⟨label, wanted, offered⟩ => ⟨label, Finset.mem_inter.mpr ⟨wanted, offered⟩⟩⟩
  simp only [accepts, Bool.and_eq_true, Bool.or_eq_true, decide_eq_true_eq, beq_iff_eq, shared, and_assoc]

structure QueueSnapshot where
  queued : ℕ
  delayed : ℕ
  inflight : ℕ
  deadLettered : ℕ
  pressure : ℚ

end TaskRunner
