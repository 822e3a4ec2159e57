import TaskRunner.Database.Queries
import TaskRunner.Scheduler.Guarantees
import TaskRunner.Scheduler.Mirror

/-!
What the store answers about a run: the log of the reports, the counts by status, and the columns that never change.
-/

namespace TaskRunner
open Base InMemoryTaskQueue

theorem TaskStatus.value_injective : Function.Injective TaskStatus.value := by
  intro first second same
  have read := TaskStatus.ofValue_value first
  rw [same, TaskStatus.ofValue_value] at read
  exact (Except.ok.inj read).symm

namespace System

/-! ### Reports on their way to the store -/

/-- The report a coroutine is inside of, past its settling. -/
def inside (s : System) : List TaskResult := (s.frame.reporting.map Prod.fst).toList

/-- The report a section writes to the store. -/
def written (s : System) : Event → List TaskResult
  | .proceed _ =>
    match s.frame with
    | .storeReport result _ => [result]
    | _ => []
  | _ => []

/-- A report that is settled is written at the end of its coroutine, and none besides. -/
theorem step_written {s : System} (rep : Represented s.engine.queue) (event : Event) :
    inside s ++ s.reported event =
      s.written event ++ inside (s.step event) := by
  by_cases running : ∃ clock, event = .proceed clock
  · obtain ⟨clock, rfl⟩ := running
    cases frame : s.frame with
    | settleReport result =>
      have before : inside s = [] := by rw [inside, frame]; rfl
      have unwritten : s.written (.proceed clock) = [] := by simp only [written, frame]
      cases found : s.engine.queue.tasks.get? result.taskId with
      | none =>
        have emitted : s.reported (.proceed clock) = [] := by
          simp only [reported, frame, if_neg ((Dict.get?_eq_none _ _).mp found)]
        have next : inside (s.step (.proceed clock)) = [] := by
          rw [inside, step, proceed_unknown rep frame found]
          rfl
        rw [before, emitted, next, unwritten]
      | some task =>
        have emitted : s.reported (.proceed clock) = [result] := by
          simp only [reported, frame, if_pos (Dict.mem_of_get? found)]
        have next : inside (s.step (.proceed clock)) = [result] := by
          rw [inside, step, proceed_settle rep frame found]
          split <;> rfl
        rw [before, emitted, next, unwritten]
    | storeTasks tasks =>
      cases tasks with
      | nil => simp [inside, step, proceed, reported, written, frame, Frame.reporting]
      | cons task rest =>
        simp only [inside, step, proceed, reported, written, frame]
        split <;> rfl
    | idle | storeTask | noteCompleted | storeReport =>
      simp [inside, step, proceed, reported, written, frame, Frame.reporting]
  · have other : ∀ clock, event ≠ .proceed clock := fun clock same => running ⟨clock, same⟩
    have kept : inside (s.step event) = inside s := by
      rcases (step_stays s other).frame with same | ⟨free, opened⟩
      · rw [inside, inside, same]
      · rw [inside, inside, frame_of_idle free]
        cases next : (s.step event).frame with
        | noteCompleted | storeReport =>
          rw [next] at opened
          cases opened
        | _ => rfl
    rw [kept]
    cases event with
    | proceed clock => exact (other clock rfl).elim
    | _ => simp [reported, written]

/-- The reports written are the reports processed, but for the one the running coroutine is inside of. -/
theorem processed_written (config : Settings) (events : List Event) :
    processed config events = Machine.collect step written (init config) events ++ inside (after config events) :=
  Machine.run_conserves (I := fun s : System => Represented s.engine.queue) (C := fun _ _ => True)
    (fun _ event rep _ => represented_step rep event) (fun _ event rep _ => step_written rep event)
    (show Represented (init config).engine.queue from represented_init _) (Machine.along_true _ _)

/-! ### The log -/

theorem storeWorker_logs (e : SchedulerEngine) (worker : WorkerRef) : (e.storeWorker worker).store.logs = e.store.logs := by
  unfold SchedulerEngine.storeWorker SQLiteStore.upsertWorker
  dsimp only
  split <;> rfl

theorem resume_logs (s : System) (outcome : Except QueueError TaskRef × InMemoryTaskQueue) (frame : TaskRef → Frame) :
    (s.resume outcome frame).engine.store.logs = s.engine.store.logs := by
  unfold resume
  dsimp only
  split <;> rfl

theorem reapHeartbeats_logs (now : ℚ) (workers : List WorkerRef) (e : SchedulerEngine) (clock : Clock) :
    (SchedulerEngine.reapHeartbeats now workers e clock).store.logs = e.store.logs := by
  induction workers generalizing e clock with
  | nil => rfl
  | cons worker rest ih =>
    unfold SchedulerEngine.reapHeartbeats
    dsimp only
    split
    · rw [ih]
      refine Eq.trans ?_ (storeWorker_logs (e.assignWorker worker fun w => { w with status := .offline }) worker)
      show (SQLiteStore.markWorkerOffline ..).logs = _
      unfold SQLiteStore.markWorkerOffline
      split <;> rfl
    · exact ih _ _

theorem Steps.logs {s t : System} {event : Event} (steps : Steps s event t)
    (other : ∀ clock, event ≠ .proceed clock) : t.engine.store.logs = s.engine.store.logs := by
  cases steps with
  | submit | cancelTask | retryTask => exact resume_logs ..
  | reservePass =>
    unfold passCall
    split <;> rfl
  | registerWorker | returnsTask => exact storeWorker_logs ..
  | heartbeat =>
    dsimp only
    unfold SchedulerEngine.heartbeat
    split
    · rfl
    · exact storeWorker_logs ..
  | reportResult =>
    dsimp only
    unfold SchedulerEngine.noteReported
    split
    · rfl
    · exact storeWorker_logs ..
  | heartbeatReaper => exact reapHeartbeats_logs ..
  | proceed => exact (other _ rfl).elim
  | _ => rfl

/-- A failed attempt and a successful one. -/
def sampleAttempts : List Event :=
  sampleDispatch ++ sampleReport .failed 4 ++
    [.reserveTask "w" 1, .reserveEnters 1 1, .reservePass 1 (fun _ => 20) 1, .reserveReturns 1, .proceed (fun _ => 20)] ++
    sampleReport .succeeded 21

theorem Quiescent.settled {s : System} (quiet : s.Quiescent) (task : TaskRef) : ¬ s.Owed task := by
  obtain ⟨free, calls, reaped⟩ := quiet
  rintro (framed | ⟨call, c, there, _⟩ | ⟨refs, waiting, _⟩)
  · rw [frame_of_idle free] at framed
    cases framed
  · have member : call ∈ s.calls.keys := Dict.mem_of_get? there
    rw [calls] at member
    cases member
  · rw [reaped] at waiting
    cases waiting

/-- At rest a row has the status of its task. -/
theorem row_status {config : Settings} {events : List Event}
    (fine : Machine.Along step NoStoreError (init config) events) (quiet : Quiescent (after config events)) {id : String}
    {row : TaskRow} (stored : (after config events).engine.store.tasks.get? id = some row) :
    ∃ task, (after config events).engine.queue.task? id = some task ∧ row.status = task.status.value := by
  have mirrored := after_mirrored fine
  obtain ⟨ref, found⟩ := Dict.exists_of_mem (mirrored.rows id (Option.isSome_of_eq_some stored))
  refine ⟨(after config events).engine.queue.objects ref, by rw [task?, found]; rfl, ?_⟩
  rcases mirrored.shown id ref found with owed | ⟨other, stored', shows⟩ | ⟨absent, _⟩
  · exact (quiet.settled ref owed).elim
  · obtain rfl := Option.some.inj (stored.symm.trans stored')
    exact shows.status
  · rw [stored] at absent
    cases absent

/-- When no write has raised and no operation is in progress, the count of a status is the number of stored tasks that
have it now, and every task that was let in is stored. -/
theorem task_counts_exact (config : Settings) (events : List Event)
    (fine : Machine.Along step NoStoreError (init config) events) (quiet : Quiescent (after config events)) :
    (∀ status : TaskStatus, (after config events).engine.store.taskCounts.getD status.value 0 =
      ((after config events).engine.queue.tasks.keys.filter fun id =>
        ((after config events).engine.store.tasks.get? id).isSome &&
          ((after config events).engine.queue.task? id).any fun task => task.status = status).length) ∧
      ∀ id ∈ accepted config events, ((after config events).engine.store.tasks.get? id).isSome = true := by
  have mirrored := after_mirrored fine
  constructor
  · intro status
    rw [SQLiteStore.taskCounts, groupCount_getD, Dict.countP_values]
    refine List.Perm.length_eq ((List.perm_ext_iff_of_nodup ?_ ?_).mpr fun id => ?_)
    · exact (Dict.nodup_keys _).filter _
    · exact (Dict.nodup_keys _).filter _
    · rw [List.mem_filter, List.mem_filter, Dict.mem_keys_iff]
      cases stored : (after config events).engine.store.tasks.get? id with
      | none => simp
      | some row =>
        obtain ⟨task, named, same⟩ := row_status fine quiet stored
        have known : id ∈ (after config events).engine.queue.tasks.keys := mirrored.rows id (Option.isSome_of_eq_some stored)
        simp [named, known, same, TaskStatus.value_injective.eq_iff]
  · intro id let_in
    obtain ⟨ref, found⟩ := Dict.exists_of_mem (mirrored.known id let_in)
    rcases mirrored.shown id ref found with owed | ⟨row, stored, _⟩ | ⟨_, refused⟩
    · exact (quiet.settled ref owed).elim
    · exact Option.isSome_of_eq_some stored
    · exact (refused let_in).elim

theorem task_counts_sample :
    (after {} sampleAttempts).engine.store.taskCounts.getD "succeeded" 0 =
      ((after {} sampleAttempts).engine.queue.tasks.keys.filter fun id =>
        ((after {} sampleAttempts).engine.store.tasks.get? id).isSome &&
          ((after {} sampleAttempts).engine.queue.task? id).any fun task => task.status = .succeeded).length :=
  (task_counts_exact {} sampleAttempts (by decide +kernel) (by decide +kernel)).1 .succeeded

end System

end TaskRunner
