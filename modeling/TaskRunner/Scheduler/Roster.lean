import TaskRunner.Database.Queries
import TaskRunner.Scheduler.WorkerRows

/-!
The list of workers the store gives out, over whole runs: the rows it began with, and one for each name that was ever
registered.
-/

namespace TaskRunner
open Base InMemoryTaskQueue

namespace SQLiteStore

variable {store : SQLiteStore}

/-- Each row of a worker is stored under its own name. -/
def Keyed (store : SQLiteStore) : Prop :=
  ∀ workerId row, store.workers.get? workerId = some row → row.workerId = workerId

theorem Keyed.upsertWorker (keyed : store.Keyed) (worker : WorkerInfo) : (store.upsertWorker worker).Keyed := by
  intro workerId row found
  by_cases same : workerId = worker.workerId
  · subst same
    unfold SQLiteStore.upsertWorker at found
    dsimp only at found
    split at found
    · rw [Dict.get?_set_self] at found
      obtain rfl := Option.some.inj found
      rfl
    · rename_i old stored
      rw [Dict.get?_set_self] at found
      obtain rfl := Option.some.inj found
      exact keyed worker.workerId old stored
  · rw [upsertWorker_other store worker same] at found
    exact keyed workerId row found

theorem mem_upsertWorker (worker : WorkerInfo) (workerId : String) :
    workerId ∈ (store.upsertWorker worker).workers ↔ workerId = worker.workerId ∨ workerId ∈ store.workers := by
  unfold upsertWorker
  dsimp only
  split <;> exact Dict.mem_set ..

theorem Keyed.markWorkerOffline (keyed : store.Keyed) (gone : String) (now : ℚ) :
    (store.markWorkerOffline gone now).Keyed := by
  unfold SQLiteStore.markWorkerOffline
  split
  · exact keyed
  · rename_i old stored
    intro workerId row found
    change (store.workers.set gone _).get? workerId = some row at found
    rw [Dict.get?_set] at found
    split at found
    · rename_i same
      obtain rfl := Option.some.inj found
      rw [same]
      exact keyed gone old stored
    · exact keyed workerId row found

theorem mem_markWorkerOffline (gone : String) (now : ℚ) (workerId : String) :
    workerId ∈ (store.markWorkerOffline gone now).workers ↔ workerId ∈ store.workers := by
  unfold markWorkerOffline
  split
  · exact Iff.rfl
  · rename_i old stored
    show workerId ∈ store.workers.set gone _ ↔ _
    rw [Dict.mem_set]
    refine ⟨fun member => member.elim (fun same => ?_) id, Or.inr⟩
    rw [same]
    exact Dict.mem_of_get? stored

end SQLiteStore

/-! ### The writers of the table -/

namespace SchedulerEngine

variable {store : SQLiteStore} {e : SchedulerEngine}

/-- The table has the rows it began with and those of the registered workers. -/
structure Tabled (store : SQLiteStore) (e : SchedulerEngine) : Prop where
  keyed : e.store.Keyed
  rows : ∀ workerId, workerId ∈ e.store.workers ↔ workerId ∈ store.workers ∨ workerId ∈ e.workers

theorem SameWorkers.tabled {e' : SchedulerEngine} (same : SameWorkers e e') (tabled : Tabled store e) :
    Tabled store e' := by
  refine ⟨?_, fun workerId => ?_⟩
  · unfold SQLiteStore.Keyed
    rw [same.rows]
    exact tabled.keyed
  · rw [same.rows, same.workers]
    exact tabled.rows workerId

theorem Tabled.storeWorker (tabled : Tabled store e) {ref : WorkerRef}
    (known : (e.workerObjects ref).workerId ∈ e.workers) : Tabled store (e.storeWorker ref) where
  keyed := tabled.keyed.upsertWorker _
  rows workerId := by
    refine (SQLiteStore.mem_upsertWorker _ workerId).trans ?_
    rw [tabled.rows workerId]
    refine ⟨fun member => member.elim (fun same => ?_) id, Or.inr⟩
    rw [same]
    exact Or.inr known

theorem Tabled.assign (tabled : Tabled store e) {ref : WorkerRef} (known : (e.workerObjects ref).workerId ∈ e.workers)
    {f : WorkerInfo → WorkerInfo} (sameId : ∀ w, (f w).workerId = w.workerId) :
    Tabled store ((e.assignWorker ref f).storeWorker ref) := by
  have kept : Tabled store (e.assignWorker ref f) := ⟨tabled.keyed, tabled.rows⟩
  apply kept.storeWorker
  show (Function.update e.workerObjects ref (f (e.workerObjects ref)) ref).workerId ∈ e.workers
  rw [Function.update_self, sameId]
  exact known

theorem Tabled.registerWorker (tabled : Tabled store e) (worker : WorkerInfo) (now : ℚ) :
    Tabled store (e.registerWorker worker now) where
  keyed := tabled.keyed.upsertWorker _
  rows workerId := by
    refine (SQLiteStore.mem_upsertWorker _ workerId).trans ?_
    show _ ↔ _ ∨ workerId ∈ e.workers.set worker.workerId _
    dsimp only
    rw [Function.update_self, Dict.mem_set, tabled.rows workerId]
    exact or_left_comm

theorem Tabled.reapHeartbeats (now : ℚ) (refs : List WorkerRef) (tabled : Tabled store e)
    (known : ∀ ref ∈ refs, (e.workerObjects ref).workerId ∈ e.workers) (clock : Clock) :
    Tabled store (reapHeartbeats now refs e clock) ∧ (reapHeartbeats now refs e clock).workers = e.workers := by
  induction refs generalizing e clock with
  | nil => exact ⟨tabled, rfl⟩
  | cons ref rest ih =>
    rw [List.forall_mem_cons] at known
    unfold SchedulerEngine.reapHeartbeats
    dsimp only
    split
    · have offline := tabled.assign known.1 (f := fun w => { w with status := .offline }) fun _ => rfl
      refine ih ⟨offline.keyed.markWorkerOffline _ _, fun workerId => ?_⟩ ?_ _
      · exact (SQLiteStore.mem_markWorkerOffline _ _ workerId).trans (offline.rows workerId)
      · intro other member
        show (Function.update e.workerObjects ref _ other).workerId ∈ e.workers
        by_cases same : other = ref
        · subst same
          rw [Function.update_self]
          exact known.1
        · rw [Function.update_of_ne same]
          exact known.2 other member
    · exact ih tabled known.2 _

end SchedulerEngine

namespace System
open SchedulerEngine

/-! ### Whole runs -/

/-- The table is complete, and every call is for a worker that was registered. -/
structure Rostered (store : SQLiteStore) (s : System) : Prop where
  tabled : Tabled store s.engine
  called : ∀ call c, s.calls.get? call = some c → (s.engine.workerObjects c.worker).workerId ∈ s.engine.workers

theorem Steps.tabled {store : SQLiteStore} {s t : System} {event : Event} (steps : Steps s event t) (wired : Wired s)
    (rostered : Rostered store s) :
    Tabled store t.engine ∧ ∀ workerId ∈ s.engine.workers, workerId ∈ t.engine.workers := by
  have tabled := rostered.tabled
  have known : ∀ workerId ref, s.engine.workers.get? workerId = some ref →
      (s.engine.workerObjects ref).workerId ∈ s.engine.workers := by
    intro workerId ref found
    rw [(wired.registered workerId ref found).2]
    exact Dict.mem_of_get? found
  have same : SameWorkers s.engine t.engine →
      Tabled store t.engine ∧ ∀ workerId ∈ s.engine.workers, workerId ∈ t.engine.workers := by
    intro kept
    refine ⟨kept.tabled tabled, fun workerId member => ?_⟩
    rw [kept.workers]
    exact member
  cases steps with
  | @registerWorker worker now free =>
    exact ⟨tabled.registerWorker worker now, fun workerId member => (Dict.mem_set ..).mpr (Or.inr member)⟩
  | @heartbeat workerId runningTasks now =>
    show Tabled store (s.engine.heartbeat ..) ∧ ∀ id ∈ s.engine.workers, id ∈ (s.engine.heartbeat ..).workers
    unfold SchedulerEngine.heartbeat
    split
    · exact ⟨tabled, fun _ member => member⟩
    · rename_i ref found
      exact ⟨tabled.assign (known workerId ref found) fun _ => rfl, fun _ member => member⟩
  | @returnsTask call ref timeout task free found =>
    exact ⟨tabled.assign (rostered.called call _ found) fun _ => rfl, fun _ member => member⟩
  | @reportResult result task free =>
    show Tabled store (s.engine.noteReported ..) ∧ ∀ id ∈ s.engine.workers, id ∈ (s.engine.noteReported ..).workers
    unfold SchedulerEngine.noteReported
    split
    · exact ⟨tabled, fun _ member => member⟩
    · rename_i ref found
      exact ⟨tabled.assign (known result.workerId ref found) fun _ => rfl, fun _ member => member⟩
  | @heartbeatReaper clock free =>
    have listed : ∀ ref ∈ s.engine.workers.values, (s.engine.workerObjects ref).workerId ∈ s.engine.workers := by
      intro ref member
      obtain ⟨⟨workerId, _⟩, entry, rfl⟩ := List.mem_map.mp member
      exact known workerId _ ((s.engine.workers.mem_entries_iff workerId _).mp entry)
    obtain ⟨reaped, workers⟩ := tabled.reapHeartbeats (clock 0) s.engine.workers.values listed (clock.later 1)
    refine ⟨reaped, fun workerId member => ?_⟩
    show workerId ∈ (reapHeartbeats ..).workers
    rw [workers]
    exact member
  | submit | cancelTask | retryTask => exact same (same_resume ..)
  | reservePass => exact same (same_passCall ..)
  | proceed => exact same (same_proceed s _)
  | stays | returnsNone | reserveTask | reserveEnters | leaseReaperResumes | batchRefused | submitBatch | queueSnapshot
  | expiryFails | requeueExpired => exact same ⟨rfl, rfl, rfl⟩

theorem step_rostered {store : SQLiteStore} {s : System} (rep : Represented s.engine.queue) (wired : Wired s)
    (rostered : Rostered store s) (event : Event) : Rostered store (s.step event) := by
  obtain ⟨tabled, kept⟩ := (step_steps s event).tabled wired rostered
  refine ⟨tabled, fun call c' found => ?_⟩
  have registry := step_registry s event
  have older : ∀ c, s.calls.get? call = some c → c'.worker = c.worker →
      ((s.step event).engine.workerObjects c'.worker).workerId ∈ (s.step event).engine.workers := by
    intro c old same
    rw [same, registry.names _ (wired.workers call c old)]
    exact kept _ (rostered.called call c old)
  rcases step_call rep found with old | ⟨workerId, _, _, _, _, reservable, _⟩ | ⟨c, old, same, _⟩
  · exact older c' old rfl
  · have registered := reservable_registered reservable
    obtain ⟨allocated, named⟩ := wired.registered workerId _ registered
    rw [registry.names _ allocated, named]
    exact kept workerId (Dict.mem_of_get? registered)
  · exact older c old same

/-- Started on any database, the store lists the workers it held and those that were registered, each once and in the
order of their names; where the rows agree with the objects, each registered worker is listed as it is. -/
theorem workers_listed (config : Settings) (store : SQLiteStore) (keyed : store.Keyed) (events : List Event) :
    let now := (Machine.run step (startedOn config store) events).engine
    (now.store.selectWorkers.map WorkerRow.workerId).Pairwise (· < ·) ∧
      (∀ workerId, workerId ∈ now.store.selectWorkers.map WorkerRow.workerId ↔
        workerId ∈ store.workers ∨ workerId ∈ now.workers) ∧
      (now.RowsAgree → ∀ workerId ref, now.workers.get? workerId = some ref →
        ∃ row ∈ now.store.selectWorkers, row.workerId = workerId ∧
          SQLiteStore.ShowsWorker row (now.workerObjects ref)) := by
  intro now
  let I : System → Prop := fun s => (Represented s.engine.queue ∧ Wired s) ∧ Rostered store s
  have whole : I (Machine.run step (startedOn config store) events) := by
    refine Machine.run_invariant (I := I) (fun s event given => ?_) ⟨⟨represented_init _, ?_⟩, ?_⟩ events
    · obtain ⟨⟨rep, wired⟩, rostered⟩ := given
      exact ⟨⟨represented_step rep event, step_wired rep wired event⟩, step_rostered rep wired rostered event⟩
    · obtain ⟨registered, fresh, workers, returned⟩ := wired_init config
      exact ⟨registered, fresh, workers, returned⟩
    · refine ⟨⟨keyed, fun workerId => (or_iff_left ?_).symm⟩, fun call c found => by cases found⟩
      exact List.not_mem_nil
  obtain ⟨_, ⟨⟨own, rows⟩, _⟩⟩ := whole
  have same : now.store.workers.values.map WorkerRow.workerId = now.store.workers.keys := by
    rw [Dict.values, Dict.keys, List.map_map]
    refine List.map_congr_left fun entry member => ?_
    exact own entry.1 entry.2 ((now.store.workers.mem_entries_iff entry.1 entry.2).mp member)
  have listed : (now.store.selectWorkers.map WorkerRow.workerId).Perm now.store.workers.keys := by
    rw [← same]
    exact (orderBy_perm WorkerRow.workerId now.store.workers.values).map WorkerRow.workerId
  refine ⟨orderBy_rising (by rw [same]; exact now.store.workers.nodup_keys), fun workerId => ?_, ?_⟩
  · exact listed.mem_iff.trans (rows workerId)
  · intro agree workerId ref found
    obtain ⟨row, stored, shows⟩ := agree workerId ref found
    refine ⟨row, (orderBy_perm _ _).mem_iff.mpr ?_, own workerId row stored, shows⟩
    exact List.mem_map.mpr ⟨(workerId, row), (now.store.workers.mem_entries_iff workerId row).mpr stored, rfl⟩

theorem workers_listed_sample :
    "w" ∈ (Machine.run step (startedOn {} {}) sampleRestart).engine.store.selectWorkers.map WorkerRow.workerId :=
  ((workers_listed {} {} (fun _ _ found => by cases found) sampleRestart).2.1 "w").mpr (by decide +kernel)

end System

end TaskRunner
