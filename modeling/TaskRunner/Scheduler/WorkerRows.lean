import TaskRunner.Scheduler.Mirror

/-!
The workers table against the worker objects the engine holds. A row is written with every change of an object, and
three writes go wrong: an update keeps the old `started_at`, going offline has a time of its own, and a reservation may
come back to an object that is no longer the registered one.
-/

namespace TaskRunner
open Base InMemoryTaskQueue

namespace SchedulerEngine

/-- Every registered worker has a row, and it shows the worker. -/
def RowsAgree (e : SchedulerEngine) : Prop :=
  ∀ workerId ref, e.workers.get? workerId = some ref →
    ∃ row, e.store.workers.get? workerId = some row ∧ SQLiteStore.ShowsWorker row (e.workerObjects ref)

theorem RowsAgree.column {e : SchedulerEngine} (agree : e.RowsAgree) (workerId : String) (ref : WorkerRef)
    (found : e.workers.get? workerId = some ref) {α : Type} {column : WorkerRow → α} {field : WorkerInfo → α}
    (shown : ∀ row worker, SQLiteStore.ShowsWorker row worker → column row = field worker) :
    (e.store.workers.get? workerId).map column = some (field (e.workerObjects ref)) := by
  obtain ⟨row, stored, shows⟩ := agree workerId ref found
  rw [stored]
  exact congrArg some (shown row _ shows)

/-- A registered name is that of the object it points at. -/
def Named (e : SchedulerEngine) : Prop :=
  ∀ workerId ref, e.workers.get? workerId = some ref → (e.workerObjects ref).workerId = workerId

/-- The registry, the objects and the workers table are the same. -/
structure SameWorkers (e e' : SchedulerEngine) : Prop where
  workers : e'.workers = e.workers
  objects : e'.workerObjects = e.workerObjects
  rows : e'.store.workers = e.store.workers

theorem SameWorkers.agree {e e' : SchedulerEngine} (same : SameWorkers e e') (agree : e.RowsAgree) : e'.RowsAgree := by
  intro workerId ref found
  rw [same.workers] at found
  rw [same.objects, same.rows]
  exact agree workerId ref found

section Assign

variable {e : SchedulerEngine} (named : e.Named) (agree : e.RowsAgree)
include named agree

/-- A change of a registered object reaches its row, when the write leaves id and start alone. -/
theorem agree_assign {ref : WorkerRef} (registered : e.workers.get? (e.workerObjects ref).workerId = some ref)
    {f : WorkerInfo → WorkerInfo} (sameId : ∀ w, (f w).workerId = w.workerId)
    (sameStart : ∀ w, (f w).startedAt = w.startedAt) : ((e.assignWorker ref f).storeWorker ref).RowsAgree := by
  intro workerId other found
  change e.workers.get? workerId = some other at found
  show ∃ row, (e.store.upsertWorker (Function.update e.workerObjects ref (f (e.workerObjects ref)) ref)).workers.get?
    workerId = some row ∧
      SQLiteStore.ShowsWorker row (Function.update e.workerObjects ref (f (e.workerObjects ref)) other)
  rw [Function.update_self]
  by_cases same : other = ref
  · subst same
    obtain ⟨old, stored, shown⟩ := agree workerId other found
    have key : workerId = (f (e.workerObjects other)).workerId := by
      rw [sameId, named workerId other found]
    rw [Function.update_self, key]
    apply SQLiteStore.upsertWorker_shows _ _
    intro row there
    rw [← key, stored] at there
    obtain rfl := Option.some.inj there
    rw [sameStart]
    exact shown.startedAt
  · have different : workerId ≠ (f (e.workerObjects ref)).workerId := by
      rw [sameId]
      rintro rfl
      exact same (Option.some.inj (found.symm.trans registered))
    rw [Function.update_of_ne same, SQLiteStore.upsertWorker_other _ _ different]
    exact agree workerId other found

theorem agree_heartbeat (workerId : String) (runningTasks : Int) (now : ℚ) :
    (e.heartbeat workerId runningTasks now).RowsAgree := by
  unfold heartbeat
  split
  · exact agree
  · rename_i ref found
    refine agree_assign named agree ?_ (fun _ => rfl) (fun _ => rfl)
    rw [named workerId ref found]
    exact found

theorem agree_noteReported (workerId : String) : (e.noteReported workerId).RowsAgree := by
  unfold noteReported
  split
  · exact agree
  · rename_i ref found
    refine agree_assign named agree ?_ (fun _ => rfl) (fun _ => rfl)
    rw [named workerId ref found]
    exact found

theorem agree_noteReserved {ref : WorkerRef} (registered : e.workers.get? (e.workerObjects ref).workerId = some ref) :
    (e.noteReserved ref).RowsAgree :=
  agree_assign named agree registered (fun _ => rfl) (fun _ => rfl)

end Assign

/-- A registration writes the row of its own object; the objects registered before stay as they are. -/
theorem agree_registerWorker {e : SchedulerEngine} (agree : e.RowsAgree)
    (allocated : ∀ workerId ref, e.workers.get? workerId = some ref → ref < e.workersAllocated) (worker : WorkerInfo)
    (now : ℚ) (since : ∀ old ∈ e.store.workers.get? worker.workerId, old.startedAt = worker.startedAt) :
    (e.registerWorker worker now).RowsAgree := by
  let registered : WorkerInfo := { worker with status := .idle, lastHeartbeat := now }
  intro workerId ref found
  change (e.workers.set worker.workerId e.workersAllocated).get? workerId = some ref at found
  show ∃ row, (e.store.upsertWorker (Function.update e.workerObjects e.workersAllocated registered
    e.workersAllocated)).workers.get? workerId = some row ∧
      SQLiteStore.ShowsWorker row (Function.update e.workerObjects e.workersAllocated registered ref)
  rw [Function.update_self]
  rw [Dict.get?_set] at found
  split at found
  · rename_i same
    obtain rfl := Option.some.inj found
    subst same
    rw [Function.update_self]
    exact SQLiteStore.upsertWorker_shows _ registered since
  · rename_i different
    rw [Function.update_of_ne (Nat.ne_of_lt (allocated workerId ref found)),
      SQLiteStore.upsertWorker_other _ registered different]
    exact agree workerId ref found

/-- The worker has been heard of in time, or is known to be gone. -/
def Punctual (e : SchedulerEngine) (now : ℚ) (ref : WorkerRef) : Prop :=
  (e.workerObjects ref).status = .offline ∨
    now - (e.workerObjects ref).lastHeartbeat ≤ e.config.heartbeatTimeoutSeconds

instance (e : SchedulerEngine) (now : ℚ) (ref : WorkerRef) : Decidable (e.Punctual now ref) :=
  inferInstanceAs (Decidable (_ ∨ _))

theorem reapHeartbeats_punctual {e : SchedulerEngine} {now : ℚ} {refs : List WorkerRef}
    (punctual : ∀ ref ∈ refs, e.Punctual now ref) (clock : Clock) : reapHeartbeats now refs e clock = e := by
  induction refs with
  | nil => rfl
  | cons ref rest ih =>
    unfold reapHeartbeats
    dsimp only
    rw [if_neg]
    · exact ih fun later member => punctual later (List.mem_cons_of_mem _ member)
    · intro late
      rcases punctual ref List.mem_cons_self with offline | inTime
      · exact late.1 offline
      · exact absurd late.2 (not_lt.mpr inTime)

end SchedulerEngine

namespace System
open SchedulerEngine

/-- The scheduler as it starts on a database. -/
def startedOn (config : Settings) (store : SQLiteStore) : System :=
  { init config with engine := { SchedulerEngine.init config with store } }

/-- The object `reserve_task` marks busy when the thread of a call brings a task. -/
def returning (s : System) (call : ℕ) : Option WorkerRef :=
  match s.calls.get? call with
  | some { worker, phase := .returned (some _), .. } => some worker
  | _ => none

/-- The event writes rows of registered objects only, with the start they were first stored with, and takes no worker
offline. -/
def KeepsRows (s : System) : Event → Prop
  | .registerWorker worker _ =>
    ∀ old ∈ s.engine.store.workers.get? worker.workerId, old.startedAt = worker.startedAt
  | .reserveReturns call =>
    ∀ ref ∈ s.returning call, s.engine.workers.get? (s.engine.workerObjects ref).workerId = some ref
  | .heartbeatReaper clock => ∀ ref ∈ s.engine.workers.values, s.engine.Punctual (clock 0) ref
  | _ => True

instance (s : System) : (event : Event) → Decidable (KeepsRows s event)
  | .registerWorker worker _ =>
    inferInstanceAs (Decidable (∀ old ∈ s.engine.store.workers.get? worker.workerId, old.startedAt = worker.startedAt))
  | .reserveReturns call =>
    inferInstanceAs (Decidable
      (∀ ref ∈ s.returning call, s.engine.workers.get? (s.engine.workerObjects ref).workerId = some ref))
  | .heartbeatReaper clock =>
    inferInstanceAs (Decidable (∀ ref ∈ s.engine.workers.values, s.engine.Punctual (clock 0) ref))
  | .submit .. | .submitBatch .. | .heartbeat .. | .reserveTask .. | .reserveEnters .. | .reservePass ..
  | .reportResult .. | .cancelTask .. | .retryTask .. | .queueSnapshot .. | .requeueExpired .. | .leaseReaperResumes ..
  | .proceed .. => isTrue trivial

/-! ### One event -/

theorem same_resume (s : System) (outcome : Except QueueError TaskRef × InMemoryTaskQueue) (frame : TaskRef → Frame) :
    SameWorkers s.engine (s.resume outcome frame).engine := by
  unfold resume
  dsimp only
  split <;> exact ⟨rfl, rfl, rfl⟩

theorem same_storeTask (e : SchedulerEngine) (task : TaskRef) (result : Option TaskResult) (now : ℚ) :
    SameWorkers e (e.storeTask task result now).2 := ⟨rfl, rfl, (SchedulerEngine.storeTask_store e result now task).1⟩

theorem same_proceed (s : System) (clock : Clock) : SameWorkers s.engine (s.proceed clock).engine := by
  unfold proceed
  cases s.frame with
  | idle => exact ⟨rfl, rfl, rfl⟩
  | storeTask task => exact same_storeTask ..
  | storeTasks tasks =>
    cases tasks with
    | nil => exact ⟨rfl, rfl, rfl⟩
    | cons task rest => exact same_storeTask ..
  | settleReport result =>
    dsimp only
    split <;> rename_i settled <;> obtain ⟨queue, rfl⟩ := settleReport_kept settled <;> exact ⟨rfl, rfl, rfl⟩
  | noteCompleted result task => exact ⟨rfl, rfl, rfl⟩
  | storeReport result task =>
    have workers := (s.engine.storeReport_store result task clock).2
    dsimp only
    rw [SchedulerEngine.storeReport_changes]
    exact ⟨rfl, rfl, workers⟩

theorem same_passCall (s : System) (call : ℕ) (c : ReserveCall) (shared : Bool) (deadline : ℚ) (clock : Clock)
    (monotonic : ℚ) : SameWorkers s.engine (s.passCall call c shared deadline clock monotonic).engine := by
  unfold passCall
  split <;> exact ⟨rfl, rfl, rfl⟩

/-- Five events write rows, and each leaves them in agreement when it meets its condition. -/
theorem Steps.rowsAgree {s t : System} {event : Event} (steps : Steps s event t) (wired : Wired s)
    (agree : s.engine.RowsAgree) (keeps : s.idle = true → KeepsRows s event) : t.engine.RowsAgree := by
  have named : s.engine.Named := fun workerId ref found => (wired.registered workerId ref found).2
  have same : SameWorkers s.engine t.engine → t.engine.RowsAgree := fun kept => kept.agree agree
  cases steps with
  | @registerWorker worker now free =>
    apply agree_registerWorker agree _ worker now (keeps free)
    exact fun workerId ref found => (wired.registered workerId ref found).1
  | @heartbeat workerId runningTasks now => exact agree_heartbeat named agree workerId runningTasks now
  | @returnsTask call ref timeout task free found =>
    have returns : s.returning call = some ref := by
      unfold returning
      rw [found]
    exact agree_noteReserved named agree (keeps free ref returns)
  | reportResult => exact agree_noteReported named agree _
  | @heartbeatReaper clock free =>
    show (reapHeartbeats (clock 0) s.engine.workers.values s.engine (clock.later 1)).RowsAgree
    rw [reapHeartbeats_punctual (keeps free)]
    exact agree
  | submit | cancelTask | retryTask => exact same (same_resume ..)
  | reservePass => exact same (same_passCall ..)
  | proceed => exact same (same_proceed s _)
  | stays | returnsNone | reserveTask | reserveEnters | leaseReaperResumes => exact agree
  | batchRefused | submitBatch | queueSnapshot | expiryFails | requeueExpired => exact same ⟨rfl, rfl, rfl⟩

theorem step_rowsAgree {s : System} (wired : Wired s) (agree : s.engine.RowsAgree) {event : Event}
    (keeps : s.idle = true → KeepsRows s event) : (s.step event).engine.RowsAgree :=
  (step_steps s event).rowsAgree wired agree keeps

/-! ### Whole runs -/

/-- Started on any database, the rows of the registered workers show them for as long as no registration brings another
start than the row has, no task returns to an object that was replaced meanwhile, and no worker is taken offline. -/
theorem rows_agree_when (config : Settings) (store : SQLiteStore) (events : List Event)
    (keeps : Machine.Along step (fun s event => s.idle = true → KeepsRows s event) (startedOn config store) events) :
    (Machine.run step (startedOn config store) events).engine.RowsAgree := by
  let I : System → Prop := fun s => (Represented s.engine.queue ∧ Wired s) ∧ s.engine.RowsAgree
  have whole : I (Machine.run step (startedOn config store) events) := by
    refine Machine.run_invariant_along (I := I) ?_ ?_ keeps
    · intro s event given met
      obtain ⟨⟨rep, wired⟩, agree⟩ := given
      exact ⟨⟨represented_step rep event, step_wired rep wired event⟩, step_rowsAgree wired agree met⟩
    · refine ⟨⟨represented_init _, ?_⟩, ?_⟩
      · obtain ⟨registered, fresh, workers, returned⟩ := wired_init config
        exact ⟨registered, fresh, workers, returned⟩
      · intro workerId ref found
        cases found
  exact whole.2

/-- A worker that reserves, reports, says it is alive, registers again and is still heard of when the reaper looks. -/
def sampleLife : List Event :=
  sampleDispatch ++ sampleReport .succeeded 4 ++
    [.heartbeat "w" 2 5, .registerWorker (sampleWorker "w") 6, .heartbeatReaper (fun n => 7 + n)]

theorem rows_agree_sample : (Machine.run step (startedOn {} {}) sampleLife).engine.RowsAgree :=
  rows_agree_when {} {} sampleLife (by decide +kernel)

def sampleRestart : List Event :=
  [.registerWorker (sampleWorker "w") 0, .registerWorker { sampleWorker "w" with startedAt := 5 } 5]

def sampleSilence : List Event := [.registerWorker (sampleWorker "w") 0, .heartbeatReaper (fun n => 100 + n)]

def sampleReplaced : List Event :=
  [.registerWorker (sampleWorker "w") 0, .submit (sampleTask "a") (fun _ => 1), .proceed (fun _ => 1),
    .reserveTask "w" 1, .reserveEnters 0 1, .reservePass 0 (fun _ => 2) 1, .registerWorker (sampleWorker "w") 3,
    .reserveReturns 0, .proceed (fun _ => 4)]

/-- The row of a worker that registers again keeps its first start, the row of one that went silent says it was heard
of when it was taken offline, and a task that comes to an object registered before is counted in the row only. -/
theorem rows_agree_fails :
    ((after {} sampleRestart).Quiescent ∧ ¬ (after {} sampleRestart).engine.RowsAgree) ∧
      ((after {} sampleSilence).Quiescent ∧ ¬ (after {} sampleSilence).engine.RowsAgree) ∧
      ((after {} sampleReplaced).Quiescent ∧ ¬ (after {} sampleReplaced).engine.RowsAgree) := by
  refine ⟨⟨by decide +kernel, ?_⟩, ⟨by decide +kernel, ?_⟩, by decide +kernel, ?_⟩
  · intro agree
    have same := agree.column "w" 1 (by decide +kernel) fun _ _ => SQLiteStore.ShowsWorker.startedAt
    revert same
    decide +kernel
  · intro agree
    have same := agree.column "w" 0 (by decide +kernel) fun _ _ => SQLiteStore.ShowsWorker.lastHeartbeat
    revert same
    decide +kernel
  · intro agree
    have same := agree.column "w" 1 (by decide +kernel) fun _ _ => SQLiteStore.ShowsWorker.runningTasks
    revert same
    decide +kernel

end System

end TaskRunner
