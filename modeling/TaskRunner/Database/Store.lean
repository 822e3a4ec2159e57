import TaskRunner.Shared.Models

/-!
The tables of `SQLiteStore` and the writes the scheduler makes to them. A column that holds JSON text
holds the value the text encodes. A write that raises is rolled back.
-/

namespace TaskRunner
open Base

structure TaskRow where
  taskId : String
  status : String
  queue : String
  priority : Int
  attempts : Int
  target : String
  payloadJson : Json
  specJson : Json
  resultJson : Option Json
  error : Option String
  assignedWorker : Option String
  createdAt : ℚ
  updatedAt : ℚ

structure WorkerRow where
  workerId : String
  host : String
  pid : Int
  queuesJson : Json
  labelsJson : Json
  capacity : Int
  runningTasks : Int
  status : String
  startedAt : ℚ
  lastHeartbeat : ℚ

structure LogRow where
  entityId : String
  level : String
  message : String
  createdAt : ℚ

structure SQLiteStore where
  tasks : Dict String TaskRow := Dict.empty
  workers : Dict String WorkerRow := Dict.empty
  logs : List LogRow := []

/-- What `sqlite3` raises for an integer that no column can hold. -/
inductive StoreError where
  | overflowError (value : Int)

namespace SQLiteStore

/-- The integers `sqlite3` binds to a column. -/
def Bindable (value : Int) : Prop := -9223372036854775808 ≤ value ∧ value ≤ 9223372036854775807

instance (value : Int) : Decidable (Bindable value) := inferInstanceAs (Decidable (_ ∧ _))

/-- The integer columns of a task can be written. -/
def Storable (task : TaskEnvelope) : Prop := Bindable task.spec.priority ∧ Bindable task.attempts

instance (task : TaskEnvelope) : Decidable (Storable task) := inferInstanceAs (Decidable (_ ∧ _))

def taskRow (task : TaskEnvelope) (result : Option TaskResult) (now : ℚ) : TaskRow where
  taskId := task.taskId
  status := task.status.value
  queue := task.spec.queue
  priority := task.spec.priority
  attempts := task.attempts
  target := task.spec.target
  payloadJson := .obj task.spec.payload.entries
  specJson := task.spec.toDict
  resultJson := result.map TaskResult.toDict
  error := task.lastError
  assignedWorker := task.assignedWorker
  createdAt := task.createdAt
  updatedAt := now

/-- `INSERT … ON CONFLICT(task_id) DO UPDATE`, with every value bound. -/
def putTask (store : SQLiteStore) (task : TaskEnvelope) (result : Option TaskResult) (now : ℚ) : SQLiteStore :=
  let excluded := taskRow task result now
  match store.tasks.get? task.taskId with
  | none => { store with tasks := store.tasks.set task.taskId excluded }
  | some old => { store with
      tasks := store.tasks.set task.taskId { old with
        status := excluded.status
        attempts := excluded.attempts
        resultJson := excluded.resultJson.or old.resultJson
        error := excluded.error
        assignedWorker := excluded.assignedWorker
        updatedAt := excluded.updatedAt } }

def upsertTask (store : SQLiteStore) (task : TaskEnvelope) (result : Option TaskResult) (now : ℚ) :
    Except StoreError SQLiteStore :=
  if ¬ Bindable task.spec.priority then .error (.overflowError task.spec.priority)
  else if ¬ Bindable task.attempts then .error (.overflowError task.attempts)
  else .ok (store.putTask task result now)

def workerRow (worker : WorkerInfo) : WorkerRow where
  workerId := worker.workerId
  host := worker.host
  pid := worker.pid
  queuesJson := .arr ((worker.queues.mergeSort (· ≤ ·)).map .str)
  labelsJson := .ofSet worker.labels
  capacity := worker.capacity
  runningTasks := worker.runningTasks
  status := worker.status.value
  startedAt := worker.startedAt
  lastHeartbeat := worker.lastHeartbeat

/-- `started_at` is not among the columns an update sets. The integers of a worker come out of `int32` fields and can be
bound. -/
def upsertWorker (store : SQLiteStore) (worker : WorkerInfo) : SQLiteStore :=
  let excluded := workerRow worker
  match store.workers.get? worker.workerId with
  | none => { store with workers := store.workers.set worker.workerId excluded }
  | some old => { store with
      workers := store.workers.set worker.workerId { excluded with
        workerId := old.workerId, startedAt := old.startedAt } }

def markWorkerOffline (store : SQLiteStore) (workerId : String) (now : ℚ) : SQLiteStore :=
  match store.workers.get? workerId with
  | none => store
  | some old => { store with
      workers := store.workers.set workerId { old with
        status := WorkerStatus.offline.value, lastHeartbeat := now } }

def appendLog (store : SQLiteStore) (entityId level message : String) (now : ℚ) : SQLiteStore :=
  { store with logs := store.logs ++ [{ entityId, level := level.toUpper, message, createdAt := now }] }

@[simp] theorem upsertWorker_tasks (store : SQLiteStore) (worker : WorkerInfo) :
    (store.upsertWorker worker).tasks = store.tasks := by
  unfold upsertWorker
  dsimp only
  split <;> rfl

@[simp] theorem markWorkerOffline_tasks (store : SQLiteStore) (workerId : String) (now : ℚ) :
    (store.markWorkerOffline workerId now).tasks = store.tasks := by
  unfold markWorkerOffline
  split <;> rfl

/-- The row shows the state of the task. -/
structure Shows (row : TaskRow) (task : TaskEnvelope) : Prop where
  status : row.status = task.status.value
  attempts : row.attempts = task.attempts
  error : row.error = task.lastError
  assignedWorker : row.assignedWorker = task.assignedWorker

/-- The result stored for a task, if there is one. -/
def storedResult (store : SQLiteStore) (taskId : String) : Option Json :=
  (store.tasks.get? taskId).bind TaskRow.resultJson

section Upsert

variable (store : SQLiteStore) (task : TaskEnvelope) (result : Option TaskResult) (now : ℚ)

theorem upsertTask_ok (storable : Storable task) :
    store.upsertTask task result now = .ok (store.putTask task result now) := by
  rw [upsertTask, if_neg (not_not_intro storable.1), if_neg (not_not_intro storable.2)]

theorem upsertTask_error (fails : ¬ Storable task) : ∃ error, store.upsertTask task result now = .error error := by
  unfold upsertTask
  by_cases priority : Bindable task.spec.priority
  · have attempts : ¬ Bindable task.attempts := fun fits => fails ⟨priority, fits⟩
    exact ⟨.overflowError task.attempts, by rw [if_neg (not_not_intro priority), if_pos attempts]⟩
  · exact ⟨.overflowError task.spec.priority, by rw [if_pos priority]⟩

theorem putTask_shows :
    ∃ row, (store.putTask task result now).tasks.get? task.taskId = some row ∧ Shows row task := by
  unfold putTask
  dsimp only
  split
  · exact ⟨_, Dict.get?_set_self .., ⟨rfl, rfl, rfl, rfl⟩⟩
  · exact ⟨_, Dict.get?_set_self .., ⟨rfl, rfl, rfl, rfl⟩⟩

theorem putTask_other {taskId : String} (different : taskId ≠ task.taskId) :
    (store.putTask task result now).tasks.get? taskId = store.tasks.get? taskId := by
  unfold putTask
  dsimp only
  split
  · exact Dict.get?_set_ne _ different _
  · exact Dict.get?_set_ne _ different _

/-- `COALESCE` keeps the result stored before when there is no new one. -/
theorem putTask_result (taskId : String) :
    (store.putTask task result now).storedResult taskId =
      if taskId = task.taskId then (result.map TaskResult.toDict).or (store.storedResult taskId)
      else store.storedResult taskId := by
  unfold storedResult
  split
  · rename_i same
    subst same
    unfold putTask
    dsimp only
    split <;> rename_i found <;> rw [found, Dict.get?_set_self]
    · simp [taskRow]
    · rfl
  · rename_i different
    rw [putTask_other store task result now different]

@[simp] theorem putTask_workers : (store.putTask task result now).workers = store.workers := by
  unfold putTask
  dsimp only
  split <;> rfl

@[simp] theorem putTask_logs : (store.putTask task result now).logs = store.logs := by
  unfold putTask
  dsimp only
  split <;> rfl

@[simp] theorem appendLog_workers (entityId level message : String) :
    (store.appendLog entityId level message now).workers = store.workers := rfl

end Upsert

/-- The row shows the worker as `WorkerInfo.to_dict` does. -/
structure ShowsWorker (row : WorkerRow) (worker : WorkerInfo) : Prop where
  status : row.status = worker.status.value
  runningTasks : row.runningTasks = worker.runningTasks
  capacity : row.capacity = worker.capacity
  queues : row.queuesJson = .arr ((worker.queues.mergeSort (· ≤ ·)).map .str)
  labels : row.labelsJson = .ofSet worker.labels
  startedAt : row.startedAt = worker.startedAt
  lastHeartbeat : row.lastHeartbeat = worker.lastHeartbeat

theorem upsertWorker_shows (store : SQLiteStore) (worker : WorkerInfo)
    (since : ∀ old ∈ store.workers.get? worker.workerId, old.startedAt = worker.startedAt) :
    ∃ row, (store.upsertWorker worker).workers.get? worker.workerId = some row ∧ ShowsWorker row worker := by
  unfold upsertWorker
  dsimp only
  split
  · exact ⟨_, Dict.get?_set_self .., ⟨rfl, rfl, rfl, rfl, rfl, rfl, rfl⟩⟩
  · rename_i old found
    exact ⟨_, Dict.get?_set_self .., ⟨rfl, rfl, rfl, rfl, rfl, since old found, rfl⟩⟩

theorem upsertWorker_other (store : SQLiteStore) (worker : WorkerInfo) {workerId : String}
    (different : workerId ≠ worker.workerId) :
    (store.upsertWorker worker).workers.get? workerId = store.workers.get? workerId := by
  unfold upsertWorker
  dsimp only
  split
  · exact Dict.get?_set_ne _ different _
  · exact Dict.get?_set_ne _ different _

end SQLiteStore

end TaskRunner
