import TaskRunner.Scheduler.Announcements
import TaskRunner.Scheduler.Guarantees
import TaskRunner.Scheduler.Rows

/-!
What the published events tell about the scheduler: its reports in their order, its completed tasks, and its dispatches
once each.
-/

namespace TaskRunner
open Base InMemoryTaskQueue

namespace Broadcaster

/-- The report an announcement is about. -/
def Announcement.report : Announcement → Option TaskResult
  | .reported result _ => some result
  | _ => none

/-- The task and the worker of a dispatch. -/
def Announcement.dispatch : Announcement → Option (String × String)
  | .taskDispatched taskId workerId _ => some (taskId, workerId)
  | _ => none

namespace ClusterEvent

def text (event : ClusterEvent) (name : String) : Option String :=
  match Dict.find name event.payload with
  | some (.str text) => some text
  | _ => none

/-- The attempt an event says is over: its type, the task, the worker and the duration. -/
def outcome (event : ClusterEvent) : Option (EventType × String × String × ℚ) :=
  match event.text "task_id", event.text "worker_id", Dict.find "duration_seconds" event.payload with
  | some taskId, some workerId, some (.float duration) => some (event.eventType, taskId, workerId, duration)
  | _, _, _ => none

/-- The task and the worker of the dispatch an event tells. -/
def dispatch (event : ClusterEvent) : Option (String × String) :=
  match event.eventType, event.text "task_id", event.text "worker_id" with
  | .taskDispatched, some taskId, some workerId => some (taskId, workerId)
  | _, _, _ => none

end ClusterEvent

/-- What is to be told of a report. -/
def outcome (result : TaskResult) : EventType × String × String × ℚ :=
  (if result.status = .succeeded then .taskFinished else .taskFailed, result.taskId, result.workerId,
    result.durationSeconds)

theorem event_outcome (s : System) (announcement : Announcement) :
    (announcement.event s).outcome = announcement.report.map outcome := by
  cases announcement <;> rfl

theorem event_dispatch (s : System) (announcement : Announcement) :
    (announcement.event s).dispatch = announcement.dispatch := by
  cases announcement with
  | reported result task =>
    simp only [Announcement.event, ClusterEvent.dispatch]
    split
    · rename_i finished _ _
      split at finished <;> cases finished
    · rfl
  | _ => rfl

/-! ### The flow of announcements -/

/-- What a kind of announcement tells, from the turns that make it certain to those that publish it. -/
theorem announced_eq {α : Type} (tell : Announcement → Option α) (config : Settings) (turns : List Turn) :
    Machine.collect step (fun b turn => ((b.begins turn).bind tell).toList) (start config) turns =
      Machine.collect step (fun b turn => ((b.announced turn).bind tell).toList) (start config) turns ++
        ((after config turns).announcing.bind tell).toList := by
  have told : ∀ waiting : Option Announcement, waiting.toList.filterMap tell = (waiting.bind tell).toList := by
    intro waiting
    cases waiting with
    | none => rfl
    | some announcement => cases told : tell announcement <;> simp [told]
  have flow := @Machine.run_conserves _ _ _ step Clear (fun _ _ => True) (fun b => b.announcing.toList)
    (fun b turn => (b.begins turn).toList) (fun b turn => (b.announced turn).toList)
    (fun b turn clear _ => step_clear clear turn) (fun b turn clear _ => step_announces clear turn) (start config)
    (fun _ => rfl) turns (Machine.along_true (start config) turns)
  have mapped := congrArg (List.filterMap tell) flow
  rw [List.filterMap_append, List.filterMap_append, Machine.collect_filterMap, Machine.collect_filterMap] at mapped
  simp only [told] at mapped
  exact mapped

/-- The same for what the published events tell. -/
theorem published_filterMap {α : Type} {tell : Announcement → Option α} {read : ClusterEvent → Option α}
    (reads : ∀ s announcement, read (Announcement.event s announcement) = tell announcement) (config : Settings)
    (turns : List Turn) :
    (published config turns).filterMap read =
      Machine.collect step (fun b turn => ((b.announced turn).bind tell).toList) (start config) turns := by
  rw [published, Machine.collect_filterMap]
  apply Machine.collect_congr (I := fun _ => True) (fun _ _ _ => trivial) _ trivial
  intro b turn _
  unfold publishes
  cases b.announced turn with
  | none => rfl
  | some announcement =>
    simp only [Option.map_some, Option.toList_some, Option.bind_some]
    cases told : tell announcement <;> simp [reads, told]

/-- What becomes certain in a run is what the scheduler's own run makes certain. -/
theorem begins_collect {α : Type} (tell : Announcement → Option α) (quiet : ∀ p, tell (.queuePressure p) = none)
    (config : Settings) (turns : List Turn) :
    Machine.collect step (fun b turn => ((b.begins turn).bind tell).toList) (start config) turns =
      Machine.collect System.step (fun s event => ((announces s event).bind tell).toList) (System.init config)
        (eventsOf config turns) := by
  have lower : Machine.collect System.step (fun s event => ((announces s event).bind tell).toList) (System.init config)
      (eventsOf config turns) = Machine.collect step (fun b turn => Machine.collect System.step
        (fun s event => ((announces s event).bind tell).toList) b.system (b.systemEvents turn)) (start config) turns :=
    Machine.collect_simulates (a := Broadcaster.system) (fun _ _ => rfl) (start config) turns
  rw [lower]
  apply Machine.collect_congr (I := fun _ => True) (fun _ _ _ => trivial) _ trivial
  intro b turn _
  cases turn with
  | scheduler event =>
    simp only [begins, systemEvents]
    split <;> simp [Machine.collect]
  | pressureReport now =>
    have silent : ((b.begins (.pressureReport now)).bind tell).toList = [] := by
      simp only [begins]
      split <;> simp [quiet]
    rw [silent]
    simp only [systemEvents]
    split <;> rfl
  | _ => rfl

/-! ### Reports -/

theorem announces_report (s : System) (event : Event) :
    ((announces s event).bind Announcement.report).toList = s.written event := by
  have other : ∀ (option : Option TaskEnvelope) (f : TaskEnvelope → Announcement), (∀ task, (f task).report = none) →
      ((option.map f).bind Announcement.report).toList = [] := by
    intro option f silent
    cases option <;> simp [silent]
  cases event with
  | submit | cancelTask => exact other _ _ fun _ => rfl
  | reserveReturns call =>
    simp only [announces]
    cases s.calls.get? call with
    | none => rfl
    | some c => exact other _ _ fun _ => rfl
  | submitBatch =>
    simp only [announces]
    split
    · split <;> rfl
    · rfl
  | registerWorker =>
    simp only [announces]
    split <;> rfl
  | heartbeat workerId =>
    simp only [announces]
    split
    · cases s.engine.workers.get? workerId <;> rfl
    · rfl
  | proceed =>
    simp only [announces, System.written]
    cases s.frame <;> rfl
  | _ => rfl

/-- The reports processed and not yet published. -/
def unannounced (b : Broadcaster) : List TaskResult :=
  (b.announcing.bind Announcement.report).toList ++ b.system.inside

theorem unannounced_free {b : Broadcaster} (free : b.free = true) : b.unannounced = [] := by
  obtain ⟨idle, waits⟩ := Bool.and_eq_true_iff.mp free
  rw [unannounced, System.inside, System.frame_of_idle idle, Option.isNone_iff_eq_none.mp waits]
  rfl

theorem unannounced_length {b : Broadcaster} (clear : b.Clear) : b.unannounced.length ≤ 1 := by
  have waits : settling b.system.frame = true → b.announcing = none := clear
  unfold unannounced System.inside
  cases frame : b.system.frame with
  | noteCompleted | storeReport =>
    rw [frame] at waits
    rw [waits rfl]
    exact le_refl 1
  | _ => cases b.announcing.bind Announcement.report <;> simp [Frame.reporting]

/-- What the published events tell about reports is what is to be told of the reports processed, but for the last. -/
theorem processed_published {α : Type} {f : TaskResult → Option α} {read : ClusterEvent → Option α}
    (reads : ∀ s announcement, read (Announcement.event s announcement) = announcement.report.bind f) (config : Settings)
    (turns : List Turn) :
    (System.processed config (eventsOf config turns)).filterMap f =
      (published config turns).filterMap read ++ (after config turns).unannounced.filterMap f := by
  have stored := System.processed_written config (eventsOf config turns)
  rw [show System.written = fun s event => ((announces s event).bind Announcement.report).toList from
    funext fun s => funext fun event => (announces_report s event).symm] at stored
  rw [stored, ← begins_collect Announcement.report (fun _ => rfl), announced_eq, ← after_system, List.append_assoc,
    List.filterMap_append, published_filterMap reads, Machine.collect_filterMap]
  congr 1
  apply Machine.collect_congr (I := fun _ => True) (fun _ _ _ => trivial) _ trivial
  intro b turn _
  cases b.announced turn with
  | none => rfl
  | some announcement =>
    simp only [Option.bind_some]
    cases announcement.report with
    | none => rfl
    | some result => cases told : f result <;> simp [told]

/-- Every report that was processed is published once, in the order of processing, as finished when it reports success
and as failed otherwise, with its task, worker and duration; at most the last one is still to be published, and none
is when the event loop is free. -/
theorem reports_published (config : Settings) (turns : List Turn) :
    (System.processed config (eventsOf config turns)).map outcome =
        (published config turns).filterMap ClusterEvent.outcome ++ (after config turns).unannounced.map outcome ∧
      (after config turns).unannounced.length ≤ 1 ∧
      ((after config turns).free = true → (after config turns).unannounced = []) := by
  refine ⟨?_, unannounced_length (after_clear config turns), unannounced_free⟩
  have reads : ∀ s announcement, ClusterEvent.outcome (Announcement.event s announcement) =
      announcement.report.bind fun result => some (outcome result) := by
    intro s announcement
    rw [event_outcome, Option.map_eq_bind]
    rfl
  have told := processed_published reads config turns
  simpa only [List.filterMap_eq_map'] using told

/-! ### Completed tasks -/

/-- The task of an event that tells of a success. -/
def ClusterEvent.finished (event : ClusterEvent) : Option String :=
  match event.eventType with
  | .taskFinished => event.text "task_id"
  | _ => none

/-- The task of a report of success. -/
def success (result : TaskResult) : Option String := if result.status = .succeeded then some result.taskId else none

theorem event_finished (s : System) (announcement : Announcement) :
    (announcement.event s).finished = announcement.report.bind success := by
  cases announcement with
  | reported result task =>
    by_cases succeeded : result.status = .succeeded <;>
      simp [ClusterEvent.finished, Announcement.event, Announcement.report, success, succeeded, ClusterEvent.text, Dict.find]
  | _ => rfl

theorem success_eq {result : TaskResult} {id : String} :
    success result = some id ↔ result.status = .succeeded ∧ result.taskId = id := by
  unfold success
  split
  · rename_i succeeded
    simp [succeeded]
  · rename_i failed
    simp [failed]

/-- An id is noted by processing a report of its success, and by nothing else. -/
theorem step_noted_iff {s : System} (rep : Represented s.engine.queue) (event : Event) (id : String) :
    (s.step event).Noted id ↔ s.Noted id ∨ id ∈ (s.reported event).filterMap success := by
  constructor
  · intro noted
    rcases System.proceed_or_stays s event with ⟨clock, rfl⟩ | stays
    · rcases noted with member | ⟨result, task, next, rfl⟩
      · left
        change id ∈ (s.proceed clock).engine.completedTasks at member
        rw [System.proceed_completed] at member
        split at member
        · rename_i result task frame
          exact (Finset.mem_insert.mp member).elim (fun same => Or.inr ⟨result, task, frame, same.symm⟩) Or.inl
        · exact Or.inl member
      · right
        obtain ⟨frame, succeeded⟩ := System.proceed_noteCompleted next
        have known : result.taskId ∈ s.engine.queue.tasks := by
          by_contra unknown
          change (s.proceed clock).frame = .noteCompleted result task at next
          rw [System.proceed_unknown rep frame ((Dict.get?_eq_none _ _).mpr unknown)] at next
          cases next
        have emitted : s.reported (.proceed clock) = [result] := by
          simp only [System.reported, frame, if_pos known]
        rw [emitted]
        exact List.mem_filterMap.mpr ⟨result, List.mem_cons_self, success_eq.mpr ⟨succeeded, rfl⟩⟩
    · left
      rcases noted with member | ⟨result, task, next, same⟩
      · rw [stays.completedTasks] at member
        exact Or.inl member
      · rcases stays.frame with unmoved | ⟨_, opened⟩
        · exact Or.inr ⟨result, task, unmoved.symm.trans next, same⟩
        · rw [next] at opened
          cases opened
  · rintro (before | reported)
    · exact System.step_noted event before
    · obtain ⟨result, member, told⟩ := List.mem_filterMap.mp reported
      obtain ⟨succeeded, rfl⟩ := success_eq.mp told
      unfold System.reported at member
      split at member
      · rename_i clock
        split at member
        · rename_i settled frame
          split at member
          · rename_i known
            obtain rfl := List.mem_singleton.mp member
            obtain ⟨task, next⟩ := System.proceed_settled rep clock frame succeeded known
            exact Or.inr ⟨result, task, next, rfl⟩
          · cases member
        · cases member
      · cases member

theorem after_noted (config : Settings) (events : List Event) (id : String) :
    (System.after config events).Noted id ↔ id ∈ (System.processed config events).filterMap success := by
  let J : List TaskResult → System → Prop := fun past s =>
    Represented s.engine.queue ∧ ∀ id, s.Noted id ↔ id ∈ past.filterMap success
  have whole : J ([] ++ System.processed config events) (System.after config events) := by
    refine Machine.history_invariant (J := J) ?_ ?_ events
    · intro past s event given
      obtain ⟨rep, noted⟩ := given
      refine ⟨System.represented_step rep event, fun id => ?_⟩
      rw [step_noted_iff rep, noted, List.filterMap_append, List.mem_append]
    · refine ⟨represented_init _, fun id => iff_of_false ?_ List.not_mem_nil⟩
      rintro (member | ⟨_, _, frame, _⟩)
      · exact Finset.notMem_empty id member
      · cases frame
  exact whole.2 id

/-- When the event loop is free, the tasks that were published as finished are the completed ones. -/
theorem finished_completed (config : Settings) (turns : List Turn) (free : (after config turns).free = true) :
    ((published config turns).filterMap ClusterEvent.finished).toFinset =
      (after config turns).system.engine.completedTasks := by
  have told := processed_published (f := success) event_finished config turns
  rw [unannounced_free free, List.filterMap_nil, List.append_nil] at told
  have idle := (Bool.and_eq_true_iff.mp free).1
  ext id
  rw [List.mem_toFinset, ← told, ← after_noted, ← after_system]
  refine ⟨fun noted => noted.resolve_right ?_, Or.inl⟩
  rintro ⟨_, _, frame, _⟩
  rw [System.frame_of_idle idle] at frame
  cases frame

/-! ### A subscriber -/

/-- The bus has only taken the steps of the turns. -/
theorem run_bus (b : Broadcaster) (turns : List Turn) :
    (Machine.run step b turns).bus = Machine.run EventBus.step b.bus (Machine.collect step busSteps b turns) :=
  Machine.run_simulates (a := Broadcaster.bus) (fun _ _ => rfl) b turns

theorem bus_published {b : Broadcaster} (open_ : b.bus.lock = .free) (turns : List Turn) :
    EventBus.published b.bus (Machine.collect step busSteps b turns) = Machine.collect step publishes b turns := by
  refine (Machine.collect_simulates (a := Broadcaster.bus) (fun _ _ => rfl) b turns).trans ?_
  exact Machine.collect_congr (I := fun b : Broadcaster => b.bus.lock = .free) (fun _ turn open_ => step_free open_ turn)
    (fun _ turn open_ => busSteps_publish open_ turn) open_ turns

/-- The events a subscriber receives in a run, in order. -/
def received (id : ℕ) (b : Broadcaster) (turns : List Turn) : List ClusterEvent :=
  Machine.collect step (fun b turn => Machine.collect EventBus.step (EventBus.yields id) b.bus (b.busSteps turn)) b turns

/-- A put into the queue of this subscriber finds room. -/
def HasRoom (id : ℕ) (b : Broadcaster) (turn : Turn) : Prop :=
  Machine.Along EventBus.step (EventBus.HasRoom id) b.bus (b.busSteps turn)

instance (id : ℕ) (b : Broadcaster) (turn : Turn) : Decidable (b.HasRoom id turn) :=
  inferInstanceAs (Decidable (Machine.Along ..))

theorem busSteps_close {b : Broadcaster} {turn : Turn} {id : ℕ} (closes : .close id ∈ b.busSteps turn) :
    turn = .close id := by
  cases turn with
  | publish subscribers =>
    simp only [busSteps] at closes
    cases out : b.announced (.publish subscribers) <;> simp [out] at closes
  | subscribe other replay =>
    simp only [busSteps] at closes
    split at closes <;> simp at closes
  | consume other =>
    simp only [busSteps] at closes
    split at closes <;> simp at closes
  | close other =>
    simp only [busSteps] at closes
    split at closes <;> simp at closes
    rw [closes]
  | scheduler | pressureReport => cases closes

/-- Whoever joins has the replay buffer to receive. -/
theorem joined (config : Settings) {before : List Turn} {id : ℕ} (free : (after config before).free = true)
    (new : id ∉ (after config before).bus.subscriptions) :
    let b := after config (before ++ [.subscribe id true])
    EventBus.Live id b.bus ∧ b.bus.pending id = (published config before).rtake 1000 := by
  intro b
  have open_ := after_free config before
  have bus : b.bus = ((after config before).bus.step (.subscribe id true)).step .release := by
    show (Machine.run step (start config) (before ++ [.subscribe id true])).bus = _
    rw [Machine.run_append]
    show (step (after config before) (.subscribe id true)).bus = _
    simp only [step, busSteps, if_pos free]
    rfl
  have replay : (after config before).bus.replay = (published config before).rtake 1000 := by
    rw [after, run_bus, published, ← bus_published rfl]
    exact EventBus.replay_eq 1000 _
  obtain ⟨live, copied⟩ := EventBus.joins open_ new
  obtain ⟨kept, same⟩ := EventBus.step_release live
  rw [bus]
  exact ⟨kept, same.symm.trans (copied.trans replay)⟩

theorem received_pending (config : Settings) {before later : List Turn} {id : ℕ} (free : (after config before).free = true)
    (new : id ∉ (after config before).bus.subscriptions) :
    let b := after config (before ++ [.subscribe id true])
    Machine.Along step (HasRoom id) b later → .close id ∉ later →
      received id b later ++ (Machine.run step b later).bus.pending id =
        (published config before).rtake 1000 ++ Machine.collect step publishes b later := by
  intro b room stays
  obtain ⟨live, waiting⟩ := joined config free new
  have roomy : Machine.Along EventBus.step (EventBus.HasRoom id) b.bus (Machine.collect step busSteps b later) :=
    (Machine.along_simulates (a := Broadcaster.bus) (fun _ _ => rfl) b later).mpr room
  have present : .close id ∉ Machine.collect step busSteps b later := by
    intro closes
    obtain ⟨_, turn, member, closed⟩ := Machine.mem_collect closes
    rw [busSteps_close closed] at member
    exact stays member
  have flow := (EventBus.run_conserves live roomy present).2
  have read : EventBus.received id b.bus (Machine.collect step busSteps b later) = received id b later :=
    Machine.collect_simulates (a := Broadcaster.bus) (fun _ _ => rfl) b later
  rw [bus_published (after_free config _), waiting, ← run_bus, read] at flow
  exact flow.symm

/-- A subscriber that joins before more than a thousand events were published, stays and leaves room in its queue has
received every event published but those that wait for it, in order and once each. When it has read all and the event
loop is free, the tasks it saw finish are the completed ones. -/
theorem monitor_complete (config : Settings) (before later : List Turn) (id : ℕ)
    (free : (after config before).free = true) (new : id ∉ (after config before).bus.subscriptions)
    (early : (published config before).length ≤ 1000)
    (room : Machine.Along step (HasRoom id) (after config (before ++ [.subscribe id true])) later)
    (stays : .close id ∉ later) :
    let joined := after config (before ++ [.subscribe id true])
    let now := Machine.run step joined later
    received id joined later ++ now.bus.pending id = published config (before ++ .subscribe id true :: later) ∧
      (now.free = true → now.bus.pending id = [] →
        ((received id joined later).filterMap ClusterEvent.finished).toFinset = now.system.engine.completedTasks) := by
  intro joined now
  have whole : before ++ .subscribe id true :: later = before ++ [.subscribe id true] ++ later := by simp
  have reached : now = after config (before ++ .subscribe id true :: later) := by
    rw [whole, after, Machine.run_append]
    rfl
  have stream : received id joined later ++ now.bus.pending id =
      published config (before ++ .subscribe id true :: later) := by
    have all : (published config before).rtake 1000 = published config before := by
      rw [List.rtake, Nat.sub_eq_zero_of_le early, List.drop_zero]
    rw [received_pending config free new room stays, all, whole, published, published, Machine.collect_append,
      Machine.collect_append]
    exact congrArg (· ++ _) (List.append_nil _).symm
  refine ⟨stream, fun rests read => ?_⟩
  rw [read, List.append_nil] at stream
  rw [stream, finished_completed config _ (reached ▸ rests), ← reached]

/-- A worker registers and a task is submitted. -/
def sampleBefore : List Turn :=
  [.scheduler (.registerWorker (sampleWorker "w") 0), .publish [], .scheduler (.submit (sampleTask "a") (fun _ => 1)),
    .scheduler (.proceed (fun _ => 1)), .publish []]

/-- The task is dispatched and reported, then the subscriber reads. -/
def sampleLater : List Turn :=
  [.scheduler (.reserveTask "w" 1), .scheduler (.reserveEnters 0 1), .scheduler (.reservePass 0 (fun _ => 2) 1),
      .scheduler (.reserveReturns 0), .scheduler (.proceed (fun _ => 2)), .publish [0]] ++
    (System.sampleReport .succeeded 4).map .scheduler ++ .publish [0] :: List.replicate 4 (.consume 0)

theorem monitor_complete_sample :
    ((received 0 (after {} (sampleBefore ++ [.subscribe 0 true])) sampleLater).filterMap
      ClusterEvent.finished).toFinset = {"a"} := by
  have told := (monitor_complete {} sampleBefore sampleLater 0 (by decide +kernel) (by decide +kernel)
    (by decide +kernel) (by decide +kernel) (by simp [sampleLater, System.sampleReport])).2 (by decide +kernel)
    (by decide +kernel)
  exact told.trans (by decide +kernel)

end Broadcaster

end TaskRunner
