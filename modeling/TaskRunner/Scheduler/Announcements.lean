import TaskRunner.Scheduler.Mirror
import TaskRunner.Shared.Events

/-!
The scheduler together with its event bus. No coroutine suspends while it holds the lock of the bus, so `publish` goes
through as soon as a coroutine comes to it: between the last section of a coroutine and its announcement only the
threads act. A write that raises would end its coroutine without an announcement: runs with store errors are left out.
-/

namespace TaskRunner
open Base

namespace Broadcaster

inductive EventType where
  | taskSubmitted | taskDispatched | taskFinished | taskFailed | workerRegistered | workerHeartbeat | queuePressure
  deriving DecidableEq

/-- The id and the time of an event are not read by the scheduler. -/
structure ClusterEvent where
  eventType : EventType
  payload : List (String × Json)

/-- An announcement still to be made. Fields that nothing assigns are read as the coroutine begins, the status of a
task when the event is built. -/
inductive Announcement where
  | taskSubmitted (taskId queue : String)
  | batchSubmitted (batchSize : ℕ)
  | workerRegistered (workerId : String)
  | workerHeartbeat (workerId : String) (runningTasks : Int)
  | taskDispatched (taskId workerId queue : String)
  | reported (result : TaskResult) (task : TaskRef)
  | taskCancelled (taskId : String)
  | queuePressure (pressure : ℚ)

/-- The event a coroutine builds for `publish`. -/
def Announcement.event (s : System) : Announcement → ClusterEvent
  | .taskSubmitted taskId queue =>
    { eventType := .taskSubmitted, payload := [("task_id", .str taskId), ("queue", .str queue)] }
  | .batchSubmitted batchSize => { eventType := .taskSubmitted, payload := [("batch_size", .int batchSize)] }
  | .workerRegistered workerId => { eventType := .workerRegistered, payload := [("worker_id", .str workerId)] }
  | .workerHeartbeat workerId runningTasks =>
    { eventType := .workerHeartbeat
      payload := [("worker_id", .str workerId), ("running_tasks", .int runningTasks)] }
  | .taskDispatched taskId workerId queue =>
    { eventType := .taskDispatched
      payload := [("task_id", .str taskId), ("worker_id", .str workerId), ("queue", .str queue)] }
  | .reported result task =>
    { eventType := if result.status = .succeeded then .taskFinished else .taskFailed
      payload := [("task_id", .str result.taskId), ("worker_id", .str result.workerId),
        ("status", .str (s.engine.queue.objects task).status.value),
        ("duration_seconds", .float result.durationSeconds)] }
  | .taskCancelled taskId =>
    { eventType := .taskFailed
      payload := [("task_id", .str taskId), ("status", .str TaskStatus.cancelled.value)] }
  | .queuePressure pressure => { eventType := .queuePressure, payload := [("pressure", .float pressure)] }

end Broadcaster

open Broadcaster

structure Broadcaster where
  system : System
  announcing : Option Announcement := none
  bus : EventBus ClusterEvent

namespace Broadcaster

inductive Turn where
  | scheduler (event : Event)
  | pressureReport (now : ℚ)
  | publish (subscribers : List ℕ)
  | subscribe (id : ℕ) (replay : Bool)
  | consume (id : ℕ)
  | close (id : ℕ)

def start (config : Settings) : Broadcaster where
  system := System.init config
  bus := EventBus.init 1000

/-- What the threads of `asyncio.to_thread` do by themselves. -/
def onThread : Event → Bool
  | .reserveEnters .. | .reservePass .. | .requeueExpired _ => true
  | _ => false

/-- The task a coroutine goes on to store, if the event begins one that does. -/
def storing (s : System) (event : Event) : Option TaskEnvelope :=
  if s.idle then
    match (s.step event).frame with
    | .storeTask task => some ((s.step event).engine.queue.objects task)
    | _ => none
  else none

/-- The announcement that a coroutine is going to end with, at the section from which it is certain to. -/
def announces (s : System) (event : Event) : Option Announcement :=
  match event with
  | .submit .. => (storing s event).map fun task => .taskSubmitted task.taskId task.spec.queue
  | .submitBatch .. =>
    if s.idle then
      match (s.step event).frame with
      | .storeTasks submitted => some (.batchSubmitted submitted.length)
      | _ => none
    else none
  | .registerWorker worker _ => if s.idle then some (.workerRegistered worker.workerId) else none
  | .heartbeat workerId runningTasks _ =>
    if s.idle then
      (s.engine.workers.get? workerId).map fun worker =>
        .workerHeartbeat (s.engine.workerObjects worker).workerId runningTasks
    else none
  | .reserveReturns call =>
    (s.calls.get? call).bind fun c => (storing s event).map fun task =>
      .taskDispatched task.taskId (s.engine.workerObjects c.worker).workerId task.spec.queue
  | .proceed _ =>
    match s.frame with
    | .storeReport result task => some (.reported result task)
    | _ => none
  | .cancelTask taskId => (storing s event).map fun _ => .taskCancelled taskId
  | _ => none

/-- The event loop is free for another coroutine. -/
def free (b : Broadcaster) : Bool := b.system.idle && b.announcing.isNone

/-- The event may come next: the running coroutine goes on, a thread acts, or the event loop is free; and no write of it
raises. -/
def admits (b : Broadcaster) (event : Event) : Bool :=
  (!b.system.idle || onThread event || b.announcing.isNone) && decide (b.system.NoStoreError event)

/-- `publish` may be entered, and `list` reads the set of subscribers in this order. -/
def Ready (b : Broadcaster) (subscribers : List ℕ) : Prop :=
  b.system.idle = true ∧ subscribers.Nodup ∧ subscribers.toFinset = b.bus.subscribers

instance (b : Broadcaster) (subscribers : List ℕ) : Decidable (b.Ready subscribers) :=
  inferInstanceAs (Decidable (_ ∧ _ ∧ _))

def pressure (b : Broadcaster) (now : ℚ) : ℚ := (b.system.engine.queue.snapshot now).1.pressure

/-- The announcement that becomes certain in a turn. -/
def begins (b : Broadcaster) : Turn → Option Announcement
  | .scheduler event => if b.admits event then announces b.system event else none
  | .pressureReport now => if b.free ∧ b.pressure now ≥ 4 / 5 then some (.queuePressure (b.pressure now)) else none
  | _ => none

/-- The announcement that goes out in a turn. -/
def announced (b : Broadcaster) : Turn → Option Announcement
  | .publish subscribers => if b.Ready subscribers then b.announcing else none
  | _ => none

/-- The scheduler's part of a turn. -/
def systemEvents (b : Broadcaster) : Turn → List Event
  | .scheduler event => if b.admits event then [event] else []
  | .pressureReport now => if b.free then [.queueSnapshot now] else []
  | _ => []

/-- The bus's part of a turn. -/
def busSteps (b : Broadcaster) : Turn → List (BusStep ClusterEvent)
  | .publish subscribers =>
    ((b.announced (.publish subscribers)).map fun announcement =>
      [.publish (announcement.event b.system) subscribers, .putAll]).getD []
  | .subscribe id replay => if b.free then [.subscribe id replay, .release] else []
  | .consume id => if b.free then [.consume id] else []
  | .close id => if b.free then [.close id, .discard id, .release] else []
  | _ => []

def step (b : Broadcaster) (turn : Turn) : Broadcaster where
  system := Machine.run System.step b.system (b.systemEvents turn)
  announcing :=
    match b.announced turn with
    | some _ => none
    | none => (b.begins turn).or b.announcing
  bus := Machine.run EventBus.step b.bus (b.busSteps turn)

def after (config : Settings) (turns : List Turn) : Broadcaster := Machine.run step (start config) turns

/-- The event published in a turn. -/
def publishes (b : Broadcaster) (turn : Turn) : List ClusterEvent :=
  ((b.announced turn).map (Announcement.event b.system)).toList

/-- The events published in a run, in order. -/
def published (config : Settings) (turns : List Turn) : List ClusterEvent :=
  Machine.collect step publishes (start config) turns

/-- What the scheduler does in a run. -/
def eventsOf (config : Settings) (turns : List Turn) : List Event :=
  Machine.collect step systemEvents (start config) turns

/-- The scheduler under the bus is the scheduler by itself. -/
theorem after_system (config : Settings) (turns : List Turn) :
    (after config turns).system = System.after config (eventsOf config turns) :=
  Machine.run_simulates (a := Broadcaster.system) (fun _ _ => rfl) (start config) turns

/-- No write of the scheduler raises in a run. -/
theorem events_fine (config : Settings) (turns : List Turn) :
    Machine.Along System.step System.NoStoreError (System.init config) (eventsOf config turns) := by
  refine (Machine.along_simulates (a := Broadcaster.system) (fun _ _ => rfl) (start config) turns).mpr ?_
  refine Machine.Along.imp (fun b turn _ => ?_) (Machine.along_true (start config) turns)
  cases turn with
  | scheduler event =>
    simp only [systemEvents]
    split
    · rename_i admitted
      exact ⟨of_decide_eq_true (Bool.and_eq_true_iff.mp admitted).2, trivial⟩
    · trivial
  | pressureReport now =>
    simp only [systemEvents]
    split
    · exact ⟨trivial, trivial⟩
    · trivial
  | _ => trivial

/-! ### One announcement at a time -/

/-- The coroutine is inside `report_result`, which announces at its very end. -/
def settling : Frame → Bool
  | .settleReport _ | .noteCompleted .. | .storeReport .. => true
  | _ => false

/-- `report_result` has nothing to announce before its end. -/
def Clear (b : Broadcaster) : Prop := settling b.system.frame = true → b.announcing = none

theorem storing_idle {s : System} {event : Event} {task : TaskEnvelope} (stores : storing s event = some task) :
    s.idle = true := by
  unfold storing at stores
  split at stores
  · assumption
  · cases stores

theorem announces_idle {s : System} {event : Event} {announcement : Announcement}
    (announces : announces s event = some announcement) :
    (s.idle = true ∧ onThread event = false) ∨
      ∃ clock result task, event = .proceed clock ∧ s.frame = .storeReport result task ∧
        announcement = .reported result task := by
  cases event with
  | submit | cancelTask =>
    obtain ⟨task, stores, _⟩ := Option.map_eq_some_iff.mp announces
    exact Or.inl ⟨storing_idle stores, rfl⟩
  | reserveReturns call =>
    obtain ⟨c, _, announces⟩ := Option.bind_eq_some_iff.mp announces
    obtain ⟨task, stores, _⟩ := Option.map_eq_some_iff.mp announces
    exact Or.inl ⟨storing_idle stores, rfl⟩
  | submitBatch | registerWorker | heartbeat =>
    simp only [Broadcaster.announces] at announces
    split at announces
    · exact Or.inl ⟨‹_›, rfl⟩
    · cases announces
  | proceed clock =>
    simp only [Broadcaster.announces] at announces
    split at announces
    · rename_i result task frame
      exact Or.inr ⟨clock, result, task, rfl, frame, (Option.some.inj announces).symm⟩
    · cases announces
  | _ => cases announces

/-- No coroutine begins while an announcement waits. -/
theorem admits_idle {b : Broadcaster} {event : Event} (admitted : b.admits event = true) (idle : b.system.idle = true)
    (acts : onThread event = false) : b.announcing = none := by
  have turn := (Bool.and_eq_true_iff.mp admitted).1
  simpa [idle, acts] using turn

/-- No announcement becomes certain while another waits. -/
theorem begins_none {b : Broadcaster} (clear : b.Clear) {turn : Turn} {announcement : Announcement}
    (begins : b.begins turn = some announcement) : b.announcing = none := by
  cases turn with
  | scheduler event =>
    simp only [Broadcaster.begins] at begins
    split at begins
    · rename_i admitted
      rcases announces_idle begins with ⟨idle, acts⟩ | ⟨_, result, task, _, frame, _⟩
      · exact admits_idle admitted idle acts
      · exact clear (by rw [frame]; rfl)
    · cases begins
  | pressureReport now =>
    simp only [Broadcaster.begins] at begins
    split at begins
    · rename_i given
      simpa using (Bool.and_eq_true_iff.mp given.1).2
    · cases begins
  | _ => cases begins

/-- A coroutine that is certain of its announcement is not inside `report_result`, or has just left it. -/
theorem announces_frame {s : System} {event : Event} {announcement : Announcement}
    (announces : announces s event = some announcement) : settling (s.step event).frame = false := by
  have stored : ∀ {task : TaskEnvelope}, storing s event = some task → settling (s.step event).frame = false := by
    intro task stores
    unfold storing at stores
    split at stores
    · split at stores
      · rename_i frame
        rw [frame]
        rfl
      · cases stores
    · cases stores
  cases event with
  | submit | cancelTask =>
    obtain ⟨task, stores, _⟩ := Option.map_eq_some_iff.mp announces
    exact stored stores
  | reserveReturns call =>
    obtain ⟨c, _, announces⟩ := Option.bind_eq_some_iff.mp announces
    obtain ⟨task, stores, _⟩ := Option.map_eq_some_iff.mp announces
    exact stored stores
  | submitBatch =>
    simp only [Broadcaster.announces] at announces
    split at announces
    · split at announces
      · rename_i frame
        rw [frame]
        rfl
      · cases announces
    · cases announces
  | registerWorker | heartbeat =>
    simp only [Broadcaster.announces] at announces
    split at announces
    · rename_i idle
      simp only [System.step, System.whenIdle, idle, if_true, System.frame_of_idle idle]
      rfl
    · cases announces
  | proceed clock =>
    simp only [Broadcaster.announces] at announces
    split at announces
    · rename_i frame
      simp only [System.step, System.proceed, frame]
      rfl
    · cases announces
  | _ => cases announces

theorem thread_frame (s : System) {event : Event} (acts : onThread event = true) : (s.step event).frame = s.frame := by
  cases event with
  | reserveEnters call monotonic =>
    simp only [System.step]
    split <;> rfl
  | reservePass call clock monotonic =>
    simp only [System.step]
    split
    · exact System.passCall_frame ..
    · rfl
  | requeueExpired clock =>
    simp only [System.step]
    split <;> rfl
  | _ => cases acts

theorem proceed_settling {s : System} {clock : Clock} (inside : settling (s.proceed clock).frame = true) :
    settling s.frame = true := by
  unfold System.proceed at inside
  cases frame : s.frame with
  | idle | storeTask =>
    simp only [frame] at inside
    cases inside
  | storeTasks tasks =>
    cases tasks with
    | nil =>
      simp only [frame] at inside
      cases inside
    | cons task rest =>
      simp only [frame] at inside
      split at inside <;> cases inside
  | settleReport | noteCompleted | storeReport => rfl

theorem step_clear {b : Broadcaster} (clear : b.Clear) (turn : Turn) : (b.step turn).Clear := by
  intro inside
  cases turn with
  | scheduler event =>
    simp only [step, announced, begins, systemEvents] at inside ⊢
    split at inside
    · rename_i admitted
      rw [if_pos admitted]
      cases announcement : announces b.system event with
      | some announcement =>
        have outside := announces_frame announcement
        rw [Machine.run_cons, Machine.run_nil, outside] at inside
        cases inside
      | none =>
        rw [Option.none_or]
        rw [Machine.run_cons, Machine.run_nil] at inside
        by_cases same : (b.system.step event).frame = b.system.frame
        · exact clear (same ▸ inside)
        · rcases System.proceed_or_stays b.system event with ⟨clock, rfl⟩ | stays
          · exact clear (proceed_settling inside)
          · obtain ⟨idle, _⟩ := stays.frame.resolve_left same
            have acts : onThread event = false := by
              by_contra acts
              exact same (thread_frame b.system (by simpa using acts))
            exact admits_idle admitted idle acts
    · rename_i refused
      rw [if_neg refused, Option.none_or]
      exact clear inside
  | pressureReport now =>
    have kept : (b.step (.pressureReport now)).system.frame = b.system.frame := by
      simp only [step, systemEvents]
      split
      · simp only [Machine.run_cons, Machine.run_nil, System.step, System.whenIdle]
        split <;> rfl
      · rfl
    rw [kept] at inside
    have waits := clear inside
    simp only [step, announced, begins]
    split
    · rename_i given
      have idle := (Bool.and_eq_true_iff.mp given.1).1
      rw [System.frame_of_idle idle] at inside
      cases inside
    · exact waits
  | publish subscribers =>
    have waits := clear inside
    simp only [step, announced, begins, waits, ite_self]
    rfl
  | subscribe | consume | close => exact clear inside

theorem after_clear (config : Settings) (turns : List Turn) : (after config turns).Clear :=
  Machine.run_invariant (I := Clear) (fun _ turn clear => step_clear clear turn) (fun _ => rfl) turns

theorem announced_ready {b : Broadcaster} {subscribers : List ℕ} {announcement : Announcement}
    (out : b.announced (.publish subscribers) = some announcement) :
    b.Ready subscribers ∧ b.announcing = some announcement := by
  simp only [announced] at out
  split at out
  · exact ⟨‹_›, out⟩
  · cases out

/-- Announcements go out one at a time, in the order in which they became certain. -/
theorem step_announces {b : Broadcaster} (clear : b.Clear) (turn : Turn) :
    b.announcing.toList ++ (b.begins turn).toList = (b.announced turn).toList ++ (b.step turn).announcing.toList := by
  cases beginning : b.begins turn with
  | some announcement =>
    have waits := begins_none clear beginning
    have silent : b.announced turn = none := by
      cases turn with
      | publish => cases beginning
      | _ => rfl
    simp only [step, silent, beginning, waits]
    rfl
  | none =>
    cases out : b.announced turn with
    | some announcement =>
      have held : b.announcing = some announcement := by
        cases turn with
        | publish subscribers => exact (announced_ready out).2
        | _ => cases out
      simp only [step, out, held]
    | none =>
      simp only [step, out, beginning, Option.none_or]
      simp

/-! ### The lock of the bus -/

end Broadcaster

namespace EventBus

variable {ε : Type}

theorem release_free {bus : EventBus ε} (quiet : ∀ event listed, bus.lock ≠ .publishing event listed) :
    (bus.step .release).lock = .free := by
  simp only [step]
  cases lock : bus.lock with
  | free => exact lock
  | held => rfl
  | publishing event listed => exact (quiet event listed lock).elim

theorem subscribe_quiet {bus : EventBus ε} (free : bus.lock = .free) (id : ℕ) (replay : Bool) (event : ε)
    (listed : List ℕ) : (bus.step (.subscribe id replay)).lock ≠ .publishing event listed := by
  intro held
  simp only [step, free] at held
  split at held
  · rw [free] at held
    cases held
  · cases held

theorem discard_quiet {bus : EventBus ε} (free : bus.lock = .free) (id : ℕ) (event : ε) (listed : List ℕ) :
    (bus.step (.discard id)).lock ≠ .publishing event listed := by
  intro held
  simp only [step] at held
  split at held
  · cases held
  · rw [free] at held
    cases held

theorem consume_lock (bus : EventBus ε) (id : ℕ) : (bus.step (.consume id)).lock = bus.lock := by
  simp only [step]
  split <;> rfl

theorem close_lock (bus : EventBus ε) (id : ℕ) : (bus.step (.close id)).lock = bus.lock := by
  simp only [step]
  split <;> rfl

/-- A publication that finds the lock free hands the event out and leaves the lock free. -/
theorem publish_free {bus : EventBus ε} (free : bus.lock = .free) (event : ε) {subscribers : List ℕ}
    (listing : subscribers.Nodup ∧ subscribers.toFinset = bus.subscribers) :
    ((bus.step (.publish event subscribers)).step .putAll).lock = .free ∧
      Machine.collect step publishes bus [.publish event subscribers, .putAll] = [event] := by
  have entered : bus.step (.publish event subscribers) =
      { bus with
        replay := dequeAppend bus.replaySize bus.replay event
        lock := .publishing event subscribers } := by
    simp only [step, free, if_pos listing]
  rw [entered]
  refine ⟨putAll_lock .., ?_⟩
  simp only [Machine.collect, publishes, free, if_pos listing]
  rfl

end EventBus

namespace Broadcaster

/-- Between two turns nobody holds the lock. -/
theorem step_free {b : Broadcaster} (open_ : b.bus.lock = .free) (turn : Turn) : (b.step turn).bus.lock = .free := by
  cases turn with
  | publish subscribers =>
    simp only [step, busSteps]
    cases out : b.announced (.publish subscribers) with
    | none => exact open_
    | some announcement => exact (EventBus.publish_free open_ _ (announced_ready out).1.2).1
  | subscribe id replay =>
    simp only [step, busSteps]
    split
    · exact EventBus.release_free (EventBus.subscribe_quiet open_ id replay)
    · exact open_
  | consume id =>
    simp only [step, busSteps]
    split
    · exact (EventBus.consume_lock ..).trans open_
    · exact open_
  | close id =>
    simp only [step, busSteps]
    split
    · exact EventBus.release_free (EventBus.discard_quiet ((EventBus.close_lock ..).trans open_) id)
    · exact open_
  | scheduler | pressureReport => exact open_

theorem after_free (config : Settings) (turns : List Turn) : (after config turns).bus.lock = .free :=
  Machine.run_invariant (I := fun b : Broadcaster => b.bus.lock = .free) (fun _ turn open_ => step_free open_ turn) rfl
    turns

/-- What the bus publishes in a turn is what the scheduler announces in it. -/
theorem busSteps_publish {b : Broadcaster} (open_ : b.bus.lock = .free) (turn : Turn) :
    Machine.collect EventBus.step EventBus.publishes b.bus (b.busSteps turn) = b.publishes turn := by
  cases turn with
  | publish subscribers =>
    simp only [busSteps, publishes]
    cases out : b.announced (.publish subscribers) with
    | none => rfl
    | some announcement => exact (EventBus.publish_free open_ _ (announced_ready out).1.2).2
  | subscribe id replay =>
    simp only [busSteps]
    split <;> rfl
  | consume id =>
    simp only [busSteps]
    split <;> rfl
  | close id =>
    simp only [busSteps]
    split <;> rfl
  | scheduler | pressureReport => rfl

end Broadcaster

end TaskRunner
