import TaskRunner.Base.FailureDetector
import TaskRunner.Scheduler.WorkerRows

/-!
Which workers the scheduler takes for lost. `_heartbeat_reaper` together with what writes a worker's status is a failure
detector: the registered objects hold what the detector knows, whatever happens between two rounds.
-/

namespace TaskRunner
open Base InMemoryTaskQueue

namespace SchedulerEngine

/-- The test of `_heartbeat_reaper`. -/
def Late (config : Settings) (last now : ℚ) : Prop := now - last > config.heartbeatTimeoutSeconds

instance (config : Settings) : DecidableRel (Late config) := fun _ _ => inferInstanceAs (Decidable (_ > _))

/-- What the registered objects say of when a worker was heard of last and whether it is lost. -/
def watches (e : SchedulerEngine) (workerId : String) : Option (Detector.Watch ℚ) :=
  (e.workers.get? workerId).map fun ref => ⟨(e.workerObjects ref).lastHeartbeat, (e.workerObjects ref).status = .offline⟩

theorem SameWorkers.watches {e e' : SchedulerEngine} (same : SameWorkers e e') : e'.watches = e.watches := by
  funext workerId
  rw [SchedulerEngine.watches, SchedulerEngine.watches, same.workers, same.objects]

/-- A worker is refused when it is not registered or lost. -/
theorem reservable_eq_none {e : SchedulerEngine} {workerId : String} :
    e.reservable workerId = none ↔ ∀ w ∈ e.watches workerId, w.suspected = true := by
  unfold reservable watches
  cases e.workers.get? workerId with
  | none => exact iff_of_true rfl fun w found => by cases found
  | some ref =>
    dsimp only
    by_cases offline : (e.workerObjects ref).status = .offline
    · rw [if_pos offline]
      refine iff_of_true rfl fun w found => ?_
      cases found
      exact decide_eq_true offline
    · rw [if_neg offline]
      refine iff_of_false (fun none => by cases none) fun suspected => ?_
      exact offline (of_decide_eq_true (suspected _ rfl))

section Assign

variable {e : SchedulerEngine} (named : e.Named)
include named

/-- A change of a registered object is seen under its own name only. -/
theorem watches_assign {workerId : String} {ref : WorkerRef} (found : e.workers.get? workerId = some ref)
    (f : WorkerInfo → WorkerInfo) : ((e.assignWorker ref f).storeWorker ref).watches =
      Function.update e.watches workerId
        (some ⟨(f (e.workerObjects ref)).lastHeartbeat, (f (e.workerObjects ref)).status = .offline⟩) := by
  funext other
  rw [Function.update_apply]
  show (e.workers.get? other).map (fun r => (⟨(Function.update e.workerObjects ref (f (e.workerObjects ref)) r).lastHeartbeat,
    decide ((Function.update e.workerObjects ref (f (e.workerObjects ref)) r).status = .offline)⟩ : Detector.Watch ℚ)) = _
  split
  · rename_i same
    rw [same, found, Option.map_some, Function.update_self]
  · rename_i different
    unfold watches
    cases there : e.workers.get? other with
    | none => rfl
    | some r =>
      have apart : r ≠ ref := by
        rintro rfl
        exact different ((named other r there).symm.trans (named workerId r found))
      rw [Option.map_some, Option.map_some, Function.update_of_ne apart]

theorem watches_heartbeat {workerId : String} (known : workerId ∈ e.workers) (runningTasks : Int) (now : ℚ) :
    (e.heartbeat workerId runningTasks now).watches = Function.update e.watches workerId (some ⟨now, false⟩) := by
  obtain ⟨ref, found⟩ := Option.isSome_iff_exists.mp ((Dict.mem_iff _ _).mp known)
  unfold heartbeat
  rw [found]
  dsimp only
  rw [watches_assign named found]
  congr 3
  dsimp only
  split <;> rfl

theorem watches_noteReported (workerId : String) : (e.noteReported workerId).watches =
    Function.update e.watches workerId ((e.watches workerId).map fun w => { w with suspected := false }) := by
  unfold noteReported
  cases found : e.workers.get? workerId with
  | none =>
    have unseen : e.watches workerId = none := by rw [watches, found]; rfl
    dsimp only
    rw [unseen, Option.map_none, ← unseen, Function.update_eq_self]
  | some ref =>
    have seen : e.watches workerId =
        some ⟨(e.workerObjects ref).lastHeartbeat, (e.workerObjects ref).status = .offline⟩ := by
      rw [watches, found]; rfl
    dsimp only
    rw [watches_assign named found, seen, Option.map_some]
    congr 3
    dsimp only
    split <;> rfl

theorem watches_noteReserved {ref : WorkerRef} (found : e.workers.get? (e.workerObjects ref).workerId = some ref) :
    (e.noteReserved ref).watches = Function.update e.watches (e.workerObjects ref).workerId
      ((e.watches (e.workerObjects ref).workerId).map fun w => { w with suspected := false }) := by
  have seen : e.watches (e.workerObjects ref).workerId =
      some ⟨(e.workerObjects ref).lastHeartbeat, (e.workerObjects ref).status = .offline⟩ := by
    rw [watches, found]; rfl
  rw [seen, Option.map_some]
  exact watches_assign named found _

/-- A task that comes to an object which is no longer the registered one changes nothing that is seen. -/
theorem watches_noteReserved_replaced {ref : WorkerRef}
    (replaced : e.workers.get? (e.workerObjects ref).workerId ≠ some ref) : (e.noteReserved ref).watches = e.watches := by
  funext workerId
  show (e.workers.get? workerId).map (fun r => (⟨(Function.update e.workerObjects ref _ r).lastHeartbeat,
    decide ((Function.update e.workerObjects ref _ r).status = .offline)⟩ : Detector.Watch ℚ)) = _
  unfold watches
  cases found : e.workers.get? workerId with
  | none => rfl
  | some r =>
    have apart : r ≠ ref := by
      rintro rfl
      exact replaced ((named workerId r found).symm ▸ found)
    rw [Option.map_some, Option.map_some, Function.update_of_ne apart]

end Assign

theorem watches_registerWorker {e : SchedulerEngine}
    (allocated : ∀ workerId ref, e.workers.get? workerId = some ref → ref < e.workersAllocated) (worker : WorkerInfo)
    (now : ℚ) : (e.registerWorker worker now).watches = Function.update e.watches worker.workerId (some ⟨now, false⟩) := by
  let registered : WorkerInfo := { worker with status := .idle, lastHeartbeat := now }
  funext workerId
  show ((e.workers.set worker.workerId e.workersAllocated).get? workerId).map (fun r =>
    (⟨(Function.update e.workerObjects e.workersAllocated registered r).lastHeartbeat,
      decide ((Function.update e.workerObjects e.workersAllocated registered r).status = .offline)⟩ : Detector.Watch ℚ)) = _
  rw [Dict.get?_set, Function.update_apply]
  by_cases same : workerId = worker.workerId
  · rw [if_pos same, if_pos same, Option.map_some, Function.update_self]
    rfl
  · rw [if_neg same, if_neg same]
    unfold watches
    cases found : e.workers.get? workerId with
    | none => rfl
    | some r =>
      rw [Option.map_some, Option.map_some, Function.update_of_ne (Nat.ne_of_lt (allocated workerId r found))]

/-- What the reaper does to a worker that is late. -/
def takeOffline (e : SchedulerEngine) (ref : WorkerRef) (now : ℚ) : SchedulerEngine :=
  let lost := (e.assignWorker ref fun w => { w with status := .offline }).storeWorker ref
  { lost with store := lost.store.markWorkerOffline (e.workerObjects ref).workerId now }

theorem reapHeartbeats_cons (now : ℚ) (ref : WorkerRef) (rest : List WorkerRef) (e : SchedulerEngine) (clock : Clock) :
    reapHeartbeats now (ref :: rest) e clock =
      if (e.workerObjects ref).status ≠ .offline ∧ Late e.config (e.workerObjects ref).lastHeartbeat now then
        reapHeartbeats now rest (e.takeOffline ref (clock 0)) (clock.later 1)
      else reapHeartbeats now rest e clock := rfl

theorem takeOffline_objects (e : SchedulerEngine) (ref : WorkerRef) (now : ℚ) :
    (e.takeOffline ref now).workerObjects =
      Function.update e.workerObjects ref { e.workerObjects ref with status := .offline } := rfl

/-- A worker as a round of the reaper leaves it. -/
def judged (config : Settings) (now : ℚ) (w : WorkerInfo) : WorkerInfo :=
  if Late config w.lastHeartbeat now then { w with status := .offline } else w

theorem judged_offline (config : Settings) (now : ℚ) {w : WorkerInfo} (offline : w.status = .offline) :
    judged config now w = w := by
  have unchanged : { w with status := .offline } = w := by rw [← offline]
  rw [judged, unchanged, ite_self]

theorem reapHeartbeats_objects (now : ℚ) (refs : List WorkerRef) (e : SchedulerEngine) (clock : Clock) (r : WorkerRef) :
    (reapHeartbeats now refs e clock).workerObjects r =
      if r ∈ refs then judged e.config now (e.workerObjects r) else e.workerObjects r := by
  induction refs generalizing e clock with
  | nil => exact (if_neg List.not_mem_nil).symm
  | cons ref rest ih =>
    rw [reapHeartbeats_cons]
    split
    · rename_i late
      rw [ih, takeOffline_objects]
      by_cases same : r = ref
      · subst same
        rw [Function.update_self, if_pos List.mem_cons_self, judged_offline _ _ rfl, ite_self, judged, if_pos late.2]
      · rw [Function.update_of_ne same]
        simp only [List.mem_cons, same, false_or]
        rfl
    · rename_i spared
      rw [ih]
      by_cases same : r = ref
      · subst same
        have kept : judged e.config now (e.workerObjects r) = e.workerObjects r := by
          by_cases offline : (e.workerObjects r).status = .offline
          · exact judged_offline _ _ offline
          · rw [judged, if_neg fun late => spared ⟨offline, late⟩]
        rw [kept, ite_self, ite_self]
      · simp only [List.mem_cons, same, false_or]

theorem reapHeartbeats_workers (now : ℚ) (refs : List WorkerRef) (e : SchedulerEngine) (clock : Clock) :
    (reapHeartbeats now refs e clock).workers = e.workers := by
  induction refs generalizing e clock with
  | nil => rfl
  | cons ref rest ih =>
    rw [reapHeartbeats_cons]
    split
    · exact ih (e.takeOffline ref (clock 0)) _
    · exact ih e clock

theorem watches_heartbeatReaper (e : SchedulerEngine) (clock : Clock) :
    (e.heartbeatReaper clock).watches = Detector.step (Late e.config) e.watches (.look (clock 0)) := by
  funext workerId
  unfold Detector.step watches heartbeatReaper
  dsimp only
  rw [reapHeartbeats_workers]
  cases found : e.workers.get? workerId with
  | none => rfl
  | some ref =>
    have within : ref ∈ e.workers.values := List.mem_map_of_mem ((Dict.mem_entries_iff _ _ _).mpr found)
    rw [Option.map_some, Option.map_some, Option.map_some, reapHeartbeats_objects, if_pos within, judged]
    dsimp only
    split <;> rfl

end SchedulerEngine

/-- The events that write to worker objects. -/
def Event.writesWorkers : Event → Bool
  | .registerWorker .. | .heartbeat .. | .reserveReturns _ | .reportResult _ | .heartbeatReaper _ => true
  | _ => false

namespace System
open SchedulerEngine

/-- The sign that an event gives, when the event loop gets to it. -/
def signs (s : System) (event : Event) : List (Detector.Sign String ℚ) :=
  if s.idle then
    match event with
    | .registerWorker worker now => [.contact worker.workerId now]
    | .heartbeat workerId _ now => if workerId ∈ s.engine.workers then [.contact workerId now] else []
    | .reserveReturns call =>
      match s.returning call with
      | some ref =>
        -- a task for an object that was replaced meanwhile says nothing of the registered one
        if s.engine.workers.get? (s.engine.workerObjects ref).workerId = some ref then
          [.active (s.engine.workerObjects ref).workerId]
        else []
      | none => []
    | .reportResult result =>
      match s.engine.queue.get result.taskId with
      | .ok _ => [.active result.workerId]
      | .error _ => []
    | .heartbeatReaper clock => [.look (clock 0)]
    | _ => []
  else []

/-- The signs of life and the rounds of the reaper in a run, in order. -/
def sightings (config : Settings) (events : List Event) : List (Detector.Sign String ℚ) :=
  Machine.collect step signs (init config) events

theorem same_step (s : System) {event : Event} (other : event.writesWorkers = false) :
    SameWorkers s.engine (s.step event).engine := by
  have steps := step_steps s event
  obtain ⟨t, reached⟩ : ∃ t, t = s.step event := ⟨_, rfl⟩
  rw [← reached] at steps ⊢
  cases steps with
  | registerWorker | heartbeat | returnsNone | returnsTask | reportResult | heartbeatReaper => cases other
  | submit | cancelTask | retryTask => exact same_resume ..
  | reservePass => exact same_passCall ..
  | proceed => exact same_proceed s _
  | _ => exact ⟨rfl, rfl, rfl⟩

theorem signs_other (s : System) {event : Event} (other : event.writesWorkers = false) : s.signs event = [] := by
  unfold signs
  split
  · cases event with
    | registerWorker | heartbeat | reserveReturns | reportResult | heartbeatReaper => cases other
    | _ => rfl
  · rfl

theorem step_busy {s : System} (busy : ¬ s.idle = true) {event : Event} (writes : event.writesWorkers = true) :
    s.step event = s := by
  cases event with
  | registerWorker | heartbeat | reserveReturns | reportResult | heartbeatReaper => exact if_neg busy
  | _ => cases writes

/-- Each event takes the detector through the signs it gives. -/
theorem step_watches {s : System} (wired : Wired s) (event : Event) :
    (s.step event).engine.watches =
      Machine.run (Detector.step (Late s.engine.config)) s.engine.watches (s.signs event) := by
  have named : s.engine.Named := fun workerId ref found => (wired.registered workerId ref found).2
  cases writes : event.writesWorkers with
  | false =>
    rw [signs_other s writes]
    exact (same_step s writes).watches
  | true =>
    by_cases free : s.idle = true
    · unfold signs
      rw [if_pos free]
      cases event with
      | registerWorker worker now =>
        rw [step, whenIdle, if_pos free]
        exact watches_registerWorker (fun workerId ref found => (wired.registered workerId ref found).1) worker now
      | heartbeat workerId runningTasks now =>
        rw [step, whenIdle, if_pos free]
        dsimp only
        by_cases known : workerId ∈ s.engine.workers
        · rw [if_pos known]
          exact watches_heartbeat named known runningTasks now
        · rw [if_neg known]
          have unknown : s.engine.workers.get? workerId = none :=
            Option.not_isSome_iff_eq_none.mp fun found => known ((Dict.mem_iff _ _).mpr found)
          rw [SchedulerEngine.heartbeat, unknown]
          rfl
      | reserveReturns call =>
        rw [step, whenIdle, if_pos free]
        dsimp only
        unfold returning
        cases s.calls.get? call with
        | none => rfl
        | some c =>
          obtain ⟨ref, timeout, phase⟩ := c
          cases phase with
          | scheduled | waiting => rfl
          | returned task =>
            cases task with
            | none => rfl
            | some task =>
              dsimp only
              by_cases registered : s.engine.workers.get? (s.engine.workerObjects ref).workerId = some ref
              · rw [if_pos registered]
                exact watches_noteReserved named registered
              · rw [if_neg registered]
                exact watches_noteReserved_replaced named registered
      | reportResult result =>
        rw [step, whenIdle, if_pos free]
        dsimp only
        cases s.engine.queue.get result.taskId with
        | error => rfl
        | ok task => exact watches_noteReported named result.workerId
      | heartbeatReaper clock =>
        rw [step, whenIdle, if_pos free]
        exact watches_heartbeatReaper s.engine clock
      | _ => cases writes
    · unfold signs
      rw [step_busy free writes, if_neg free]
      rfl

/-- The registered objects hold what the detector knows. -/
theorem after_watches (config : Settings) (events : List Event) :
    (after config events).engine.watches = Detector.after (Late config) (sightings config events) := by
  let J : List (Detector.Sign String ℚ) → System → Prop := fun past s =>
    (Represented s.engine.queue ∧ Wired s ∧ s.engine.config = config) ∧
      s.engine.watches = Detector.after (Late config) past
  have whole : J ([] ++ sightings config events) (after config events) := by
    refine Machine.history_invariant (J := J) ?_ ?_ events
    · intro past s event given
      obtain ⟨⟨rep, wired, same⟩, seen⟩ := given
      refine ⟨⟨represented_step rep event, step_wired rep wired event, (step_config s event).trans same⟩, ?_⟩
      rw [step_watches wired event, seen, same, Detector.after, Detector.after, Machine.run_append]
    · exact ⟨⟨represented_init _, wired_init config, rfl⟩, rfl⟩
  exact whole.2

/-- In every run, what a registered worker was heard of last is its last registration or heartbeat, and `reserve_task`
refuses a worker exactly when it never registered or the reaper found it silent for longer than the timeout and it has
neither registered, sent a heartbeat, reported nor been given a task it waited for since. -/
theorem refused_iff (config : Settings) (events : List Event) (workerId : String) :
    ((after config events).engine.workers.get? workerId).map
        (fun ref => ((after config events).engine.workerObjects ref).lastHeartbeat) =
      Detector.lastContact workerId (sightings config events) ∧
    ((after config events).engine.reservable workerId = none ↔
      Detector.lastContact workerId (sightings config events) = none ∨
        Detector.Overdue (Late config) workerId (sightings config events)) := by
  have known : (Detector.after (Late config) (sightings config events) workerId).map Detector.Watch.last =
      Detector.lastContact workerId (sightings config events) := Detector.after_last ..
  have suspected : (∃ w, Detector.after (Late config) (sightings config events) workerId = some w ∧ w.suspected = true) ↔
      Detector.Overdue (Late config) workerId (sightings config events) := Detector.suspected_iff ..
  rw [← after_watches] at known suspected
  refine ⟨?_, ?_⟩
  · rw [← known, watches, Option.map_map]
    rfl
  · rw [reservable_eq_none, ← suspected, ← known]
    cases (after config events).engine.watches workerId with
    | none => exact iff_of_true (fun w found => by cases found) (Or.inl rfl)
    | some w =>
      constructor
      · exact fun all => Or.inr ⟨w, rfl, all w rfl⟩
      · rintro (none | ⟨other, found, lost⟩) v there
        · cases none
        · cases there
          cases found
          exact lost

end System

end TaskRunner
