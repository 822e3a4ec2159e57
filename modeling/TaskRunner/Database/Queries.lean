import TaskRunner.Base.Queries
import TaskRunner.Database.Store

/-!
The reads of `SQLiteStore`. A limit is what SQLite makes of it: a negative one is none.
-/

namespace TaskRunner
open Base

/-- The columns of `recent_tasks`. -/
structure RecentTask where
  taskId : String
  status : String
  queue : String
  priority : Int
  attempts : Int
  target : String
  payloadJson : Json
  resultJson : Option Json
  error : Option String
  assignedWorker : Option String
  createdAt : ℚ
  updatedAt : ℚ

def TaskRow.recent (row : TaskRow) : RecentTask where
  taskId := row.taskId
  status := row.status
  queue := row.queue
  priority := row.priority
  attempts := row.attempts
  target := row.target
  payloadJson := row.payloadJson
  resultJson := row.resultJson
  error := row.error
  assignedWorker := row.assignedWorker
  createdAt := row.createdAt
  updatedAt := row.updatedAt

namespace SQLiteStore

def recentTasks (store : SQLiteStore) (n : Int) : List RecentTask :=
  (limit n (orderByDesc TaskRow.updatedAt store.tasks.values)).map TaskRow.recent

/-- `workers()`, whose queues and labels are read from the text of their columns. -/
def selectWorkers (store : SQLiteStore) : List WorkerRow := orderBy WorkerRow.workerId store.workers.values

def taskCounts (store : SQLiteStore) : Dict String ℕ := groupCount TaskRow.status store.tasks.values

end SQLiteStore

end TaskRunner
