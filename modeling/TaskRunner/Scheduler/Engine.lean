import TaskRunner.Database.Store
import TaskRunner.Queue.Calls
import TaskRunner.Shared.Config

/-!
`SchedulerEngine` of `scheduler/engine.py`, in the sections its coroutines run between two points where a
worker thread can be seen to act: the calls into the queue, the changes to `completed_tasks`, and the writes
to the store. Event publication and the drain event change nothing that is read here and are left out.
-/

namespace TaskRunner
open Base

/-- A reference to a `WorkerInfo` object. -/
abbrev WorkerRef := ℕ

structure SchedulerEngine where
  config : Settings := {}
  queue : InMemoryTaskQueue
  store : SQLiteStore := {}
  workers : Dict String WorkerRef := Dict.empty
  workerObjects : WorkerRef → WorkerInfo := fun _ => default
  workersAllocated : ℕ := 0
  completedTasks : Finset String := ∅
  results : Dict String TaskResult := Dict.empty

/-- `f"{x:.3f}"` of a duration, ties to even. -/
def formatMillis (x : ℚ) : String :=
  let scaled := x * 1000
  let down := scaled.floor
  let n := (if scaled - down < 1 / 2 ∨ (scaled - down = 1 / 2 ∧ down % 2 = 0) then down else down + 1).toNat
  let fraction := toString (n % 1000)
  toString (n / 1000) ++ "." ++ "".pushn '0' (3 - fraction.length) ++ fraction

/-- `result.error or default`: an empty text counts as none. -/
def orText (error : Option String) (default : String) : String :=
  match error with
  | none => default
  | some text => if text = "" then default else text

/-- What `autoscaling_recommendation` answers. -/
structure Recommendation where
  currentWorkers : ℕ
  desiredWorkers : Int
  pressure : ℚ

namespace SchedulerEngine

def init (config : Settings) : SchedulerEngine where
  config := config
  queue := InMemoryTaskQueue.init config.maxQueueDepth

/-- Assign fields of the worker a reference points to. -/
def assignWorker (e : SchedulerEngine) (worker : WorkerRef) (f : WorkerInfo → WorkerInfo) : SchedulerEngine :=
  { e with workerObjects := Function.update e.workerObjects worker (f (e.workerObjects worker)) }

def storeWorker (e : SchedulerEngine) (worker : WorkerRef) : SchedulerEngine :=
  { e with store := e.store.upsertWorker (e.workerObjects worker) }

/-- The write of a task, which leaves the tables alone when it raises. -/
def storeTask (e : SchedulerEngine) (task : TaskRef) (result : Option TaskResult) (now : ℚ) :
    Except StoreError Unit × SchedulerEngine :=
  let outcome := e.store.upsertTask (e.queue.objects task) result now
  (outcome.map fun _ => (), { e with store := outcome.toOption.getD e.store })

/-- The loop over `submitted` in `submit_batch`. -/
def storeTasks : List TaskRef → SchedulerEngine → Clock → Except StoreError Unit × SchedulerEngine
  | [], e, _ => (.ok (), e)
  | task :: rest, e, clock =>
    match e.storeTask task none (clock 0) with
    | (.error error, e) => (.error error, e)
    | (.ok _, e) => storeTasks rest e (clock.later 1)

/-- `submit_batch` with nothing in between. -/
def submitBatch (e : SchedulerEngine) (specs : List Submission) (clock : Clock) :
    Except (QueueError ⊕ StoreError) (List TaskRef) × SchedulerEngine :=
  match e.queue.submitMany (specs.map Submission.envelope) clock with
  | (.error error, queue) => (.error (.inl error), { e with queue })
  | (.ok submitted, queue) =>
    match storeTasks submitted { e with queue } (clock.later (2 * specs.length)) with
    | (.error error, e) => (.error (.inr error), e)
    | (.ok _, e) => (.ok submitted, e)

/-- Every registration brings an object of its own, as the service decodes one from each request. -/
def registerWorker (e : SchedulerEngine) (worker : WorkerInfo) (now : ℚ) : SchedulerEngine :=
  let ref := e.workersAllocated
  let e := { e with
    workerObjects := Function.update e.workerObjects ref { worker with status := .idle, lastHeartbeat := now }
    workersAllocated := ref + 1
    workers := e.workers.set worker.workerId ref }
  e.storeWorker ref

def heartbeat (e : SchedulerEngine) (workerId : String) (runningTasks : Int) (now : ℚ) : SchedulerEngine :=
  match e.workers.get? workerId with
  | none => e
  | some worker =>
    let e := e.assignWorker worker fun w => { w with
      lastHeartbeat := now, runningTasks, status := if runningTasks ≠ 0 then .busy else .idle }
    e.storeWorker worker

/-- The lookup `reserve_task` begins with. -/
def reservable (e : SchedulerEngine) (workerId : String) : Option WorkerRef :=
  match e.workers.get? workerId with
  | none => none
  | some worker => if (e.workerObjects worker).status = .offline then none else some worker

/-- What `reserve_task` does to the worker once its thread returned a task. -/
def noteReserved (e : SchedulerEngine) (worker : WorkerRef) : SchedulerEngine :=
  let e := e.assignWorker worker fun w => { w with runningTasks := w.runningTasks + 1, status := .busy }
  e.storeWorker worker

/-- What `report_result` does to the worker that reports. -/
def noteReported (e : SchedulerEngine) (workerId : String) : SchedulerEngine :=
  match e.workers.get? workerId with
  | none => e
  | some worker =>
    let e := e.assignWorker worker fun w =>
      let runningTasks := max 0 (w.runningTasks - 1)
      { w with runningTasks, status := if runningTasks = 0 then .idle else .busy }
    e.storeWorker worker

/-- The branch on the reported status. -/
def settleReport (e : SchedulerEngine) (result : TaskResult) (clock : Clock) :
    Except QueueError TaskRef × SchedulerEngine :=
  let (outcome, queue) :=
    if result.status = .succeeded then e.queue.complete result.taskId .succeeded none
    else if result.status = .cancelled then e.queue.complete result.taskId .cancelled result.error
    else e.queue.retry result.taskId (orText result.error "task failed") clock
  (outcome, { e with queue })

def noteCompleted (e : SchedulerEngine) (taskId : String) : SchedulerEngine :=
  { e with completedTasks := insert taskId e.completedTasks }

/-- The end of `report_result`. -/
def storeReport (e : SchedulerEngine) (result : TaskResult) (task : TaskRef) (clock : Clock) :
    Except StoreError Unit × SchedulerEngine :=
  let e := { e with results := e.results.set result.taskId result }
  match e.storeTask task (some result) (clock 0) with
  | (.error error, e) => (.error error, e)
  | (.ok _, e) =>
    let level := if orText result.error "" = "" then "INFO" else "ERROR"
    let message := orText result.error ("completed in " ++ formatMillis result.durationSeconds ++ "s")
    (.ok (), { e with store := e.store.appendLog result.taskId level message (clock 1) })

/-- `report_result` with nothing in between. -/
def reportResult (e : SchedulerEngine) (result : TaskResult) (clock : Clock) :
    Except (QueueError ⊕ StoreError) TaskRef × SchedulerEngine :=
  match e.queue.get result.taskId with
  | .error error => (.error (.inl error), e)
  | .ok _ =>
    match (e.noteReported result.workerId).settleReport result clock with
    | (.error error, e) => (.error (.inl error), e)
    | (.ok task, e) =>
      let e := if result.status = .succeeded then e.noteCompleted result.taskId else e
      match e.storeReport result task (clock.later 2) with
      | (.error error, e) => (.error (.inr error), e)
      | (.ok _, e) => (.ok task, e)

/-- One round of `_heartbeat_reaper` over the workers it listed. -/
def reapHeartbeats (now : ℚ) : List WorkerRef → SchedulerEngine → Clock → SchedulerEngine
  | [], e, _ => e
  | worker :: rest, e, clock =>
    let w := e.workerObjects worker
    if w.status ≠ .offline ∧ now - w.lastHeartbeat > e.config.heartbeatTimeoutSeconds then
      let e := (e.assignWorker worker fun w => { w with status := .offline }).storeWorker worker
      let e := { e with store := e.store.markWorkerOffline w.workerId (clock 0) }
      reapHeartbeats now rest e (clock.later 1)
    else reapHeartbeats now rest e clock

def heartbeatReaper (e : SchedulerEngine) (clock : Clock) : SchedulerEngine :=
  reapHeartbeats (clock 0) e.workers.values e (clock.later 1)

def autoscalingRecommendation (e : SchedulerEngine) (now : ℚ) : Recommendation × SchedulerEngine :=
  let (snapshot, queue) := e.queue.snapshot now
  let onlineWorkers := e.workers.values.filter fun worker => (e.workerObjects worker).status ≠ .offline
  let capacity := (onlineWorkers.map fun worker => (e.workerObjects worker).capacity).sum
  let totalCapacity := if capacity = 0 then 1 else capacity
  let backlogRatio := ((snapshot.queued + snapshot.delayed : ℕ) : Int).tdiv totalCapacity
  ({ currentWorkers := onlineWorkers.length
     desiredWorkers := max 1 (min 32 (backlogRatio + onlineWorkers.length))
     pressure := snapshot.pressure }, { e with queue })

section Writes

variable (e : SchedulerEngine) (result : Option TaskResult) (now : ℚ)

theorem storeTask_ok {task : TaskRef} (storable : SQLiteStore.Storable (e.queue.objects task)) :
    e.storeTask task result now = (.ok (), { e with store := e.store.putTask (e.queue.objects task) result now }) := by
  simp only [storeTask, SQLiteStore.upsertTask_ok _ _ _ _ storable]
  rfl

theorem storeTask_error {task : TaskRef} (fails : ¬ SQLiteStore.Storable (e.queue.objects task)) :
    ∃ error, e.storeTask task result now = (.error error, e) := by
  obtain ⟨error, raised⟩ := SQLiteStore.upsertTask_error e.store _ result now fails
  refine ⟨error, ?_⟩
  simp only [storeTask, raised]
  rfl

/-- A write of a task touches no table but `tasks`. -/
theorem storeTask_store (task : TaskRef) :
    (e.storeTask task result now).2.store.workers = e.store.workers ∧
      (e.storeTask task result now).2.store.logs = e.store.logs := by
  by_cases storable : SQLiteStore.Storable (e.queue.objects task)
  · rw [storeTask_ok e result now storable]
    exact ⟨SQLiteStore.putTask_workers .., SQLiteStore.putTask_logs ..⟩
  · obtain ⟨error, raised⟩ := storeTask_error e result now storable
    rw [raised]
    exact ⟨rfl, rfl⟩

theorem storeReport_ok (result : TaskResult) {task : TaskRef} (clock : Clock)
    (storable : SQLiteStore.Storable (e.queue.objects task)) :
    e.storeReport result task clock = (.ok (), { e with
      results := e.results.set result.taskId result
      store := (e.store.putTask (e.queue.objects task) (some result) (clock 0)).appendLog result.taskId
        (if orText result.error "" = "" then "INFO" else "ERROR")
        (orText result.error ("completed in " ++ formatMillis result.durationSeconds ++ "s")) (clock 1) }) := by
  have wrote := storeTask_ok { e with results := e.results.set result.taskId result } (some result) (clock 0) storable
  simp only [storeReport, wrote]

/-- Apart from the results kept in memory, the end of `report_result` changes the tables only. -/
theorem storeReport_changes (result : TaskResult) (task : TaskRef) (clock : Clock) :
    (e.storeReport result task clock).2 =
      { e with
        results := e.results.set result.taskId result
        store := (e.storeReport result task clock).2.store } := by
  unfold storeReport
  dsimp only
  split <;> rename_i written <;> obtain rfl := congrArg Prod.snd written <;> rfl

/-- The row it writes is that of the task, and it touches no row of a worker. -/
theorem storeReport_store (result : TaskResult) (task : TaskRef) (clock : Clock) :
    (e.storeReport result task clock).2.store.tasks = (e.storeTask task (some result) (clock 0)).2.store.tasks ∧
      (e.storeReport result task clock).2.store.workers = e.store.workers := by
  have workers := (storeTask_store e (some result) (clock 0) task).1
  unfold storeReport
  dsimp only
  split <;> rename_i written <;> obtain rfl := congrArg Prod.snd written <;> exact ⟨rfl, workers⟩

end Writes

end SchedulerEngine

end TaskRunner
