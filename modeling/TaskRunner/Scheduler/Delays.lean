import TaskRunner.Queue.Availability
import TaskRunner.Queue.Punctuality
import TaskRunner.Scheduler.Leases

/-!
Delays and backoff over whole runs of the scheduler: what a task waits for, and when it need not wait.
-/

namespace TaskRunner
open Base InMemoryTaskQueue

namespace System

/-! ### What a task waits for -/

/-- A task is available when its last submission or retry says: its delay after the submission, or its backoff, once
more with every attempt, after the last retry within the budget. -/
theorem available_since (config : Settings) (events : List Event) (id : String) (task : TaskEnvelope)
    (named : (after config events).engine.queue.task? id = some task) :
    ∃ before event later, events = before ++ event :: later ∧
      (∃ call ∈ (after config before).queueCall event,
        Schedules (after config before).engine.queue call id task.availableAt) ∧
      Machine.Along step (fun s event => ∀ call ∈ s.queueCall event, ∀ due, ¬ Schedules s.engine.queue call id due)
        (after config (before ++ [event])) later := by
  refine Machine.run_since (I := fun s : System => Represented s.engine.queue)
    (P := fun s : System => ∃ other, s.engine.queue.task? id = some other ∧ other.availableAt = task.availableAt)
    (B := fun s event => ∃ call ∈ s.queueCall event, Schedules s.engine.queue call id task.availableAt)
    (K := fun s event => ∀ call ∈ s.queueCall event, ∀ due, ¬ Schedules s.engine.queue call id due)
    (fun s event rep => represented_step rep event) ?_ (represented_init _) ?_ events ⟨task, named, rfl⟩
  · rintro s event rep ⟨after, named, same⟩
    rw [step_queue, queueStep] at named
    cases made : s.queueCall event with
    | none =>
      rw [made] at named
      exact Or.inr ⟨⟨after, named, same⟩, fun call member => by cases member⟩
    | some call =>
      rw [made] at named
      refine (step_scheduled rep call named).imp ?_ ?_
      · intro schedules
        rw [same] at schedules
        exact ⟨call, rfl, schedules⟩
      · rintro ⟨⟨before, known, kept⟩, unscheduled⟩
        refine ⟨⟨before, known, kept.trans same⟩, fun other member => ?_⟩
        obtain rfl := Option.mem_some_iff.mp member
        exact unscheduled
  · rintro ⟨_, none, _⟩
    cases none

def sampleBackoff : Submission := { sampleTask "a" with spec := { target := "jobs:run" } }

/-- A failed task is retried while nothing of it waits, and dispatched again after its backoff. -/
def sampleRetry : List Event :=
  [.registerWorker (sampleWorker "w") 0, .submit sampleBackoff (fun _ => 1), .proceed (fun _ => 1), .reserveTask "w" 0,
    .reserveEnters 0 1, .reservePass 0 (fun _ => 2) 1, .reserveReturns 0, .proceed (fun _ => 2),
    .reportResult (sampleResult .failed 4), .proceed (fun _ => 4), .proceed (fun _ => 4), .reserveTask "w" 0,
    .reserveEnters 1 6, .reservePass 1 (fun _ => 6) 6]

theorem available_since_sample :
    ∃ before event later, sampleRetry = before ++ event :: later ∧
      ∃ call ∈ (after {} before).queueCall event, Schedules (after {} before).engine.queue call "a" (11 / 2) := by
  obtain ⟨task, known⟩ := exists_task (after {} sampleRetry).engine.queue "a" (by decide +kernel)
  have due : ∀ t ∈ (after {} sampleRetry).engine.queue.task? "a", t.availableAt = 11 / 2 := by decide +kernel
  obtain ⟨before, event, later, split, schedules, _⟩ := available_since {} sampleRetry "a" task known
  rw [due task known] at schedules
  exact ⟨before, event, later, split, schedules⟩

/-! ### When it need not wait -/

theorem reportCall_clock (result : TaskResult) (clock : Clock) :
    (reportCall result clock).clock = some clock ∨ (reportCall result clock).clock = none := by
  unfold reportCall
  split
  · exact Or.inr rfl
  · split
    · exact Or.inr rfl
    · exact Or.inl rfl

/-- A call that reads the wall clock goes on with the clock of its event. -/
theorem queueCall_clock {s : System} {event : Event} {call : Call} (made : s.queueCall event = some call)
    {readings : Clock} (reads : call.clock = some readings) :
    ∃ clock k, event.clock = some clock ∧ readings = clock.later k := by
  have whole : ∀ clock : Clock, clock = clock.later 0 := fun clock =>
    funext fun i => congrArg clock (Nat.zero_add i).symm
  have same : event.clock = some readings → ∃ clock k, event.clock = some clock ∧ readings = clock.later k := fun read =>
    ⟨readings, 0, read, whole readings⟩
  cases event with
  | submit task clock =>
    simp only [queueCall] at made
    split at made
    · cases made
    · split at made <;> cases made
      exact same reads
  | submitBatch tasks clock =>
    simp only [queueCall] at made
    split at made
    · split at made <;> cases made
      exact same reads
    · cases made
  | reservePass | retryTask | queueSnapshot =>
    simp only [queueCall] at made
    split at made <;> cases made
    exact same reads
  | cancelTask =>
    simp only [queueCall] at made
    split at made <;> cases made
    cases reads
  | requeueExpired clock =>
    cases made
    exact ⟨clock, 1, rfl, (Option.some.inj reads).symm⟩
  | proceed clock =>
    simp only [queueCall] at made
    split at made
    · obtain rfl := Option.some.inj made
      rcases reportCall_clock _ clock with loud | silent
      · exact same (loud.symm.trans reads)
      · rw [silent] at reads
        cases reads
    · cases made
  | _ => cases made

/-- A pass takes all its readings under the lock. -/
theorem dispatched_clock {s : System} {event : Event} {id : String} {clock : Clock} (dispatched : id ∈ s.dispatched event)
    (read : clock ∈ event.clock) :
    ∃ call, s.queueCall event = some call ∧ id ∈ s.engine.queue.handed call ∧ clock ∈ call.clock := by
  obtain ⟨made, issues, handed⟩ := Option.bind_eq_some_iff.mp dispatched
  refine ⟨made, issues, handed, ?_⟩
  cases made with
  | reserve =>
    obtain ⟨_, _, _, _, _, rfl, _⟩ := queueCall_madeBy issues
    exact read
  | _ => cases handed

/-- The readings of the wall clock that the call of an event takes under the lock. -/
def readings (s : System) (event : Event) : List Clock := (s.queueCalls event).filterMap Call.clock

theorem mem_readings {s : System} {event : Event} {clock : Clock} :
    clock ∈ s.readings event ↔ ∃ call, s.queueCall event = some call ∧ call.clock = some clock := by
  unfold readings queueCalls
  rw [List.mem_filterMap]
  exact exists_congr fun call => and_congr_left' (Option.mem_toList.trans Option.mem_def)

/-- The calls go forward when the events do. The other way round a reading before the lock may come late. -/
theorem chronological_readings (s : System) {events : List Event}
    (forward : Chronological (events.filterMap Event.clock)) :
    Chronological (Machine.collect step readings s events) := by
  have origin : ∀ {s : System} {events : List Event} {reading : Clock},
      reading ∈ Machine.collect step readings s events →
        ∃ clock ∈ events.filterMap Event.clock, ∃ k, reading = clock.later k := by
    intro s events reading member
    obtain ⟨t, event, inside, read⟩ := Machine.mem_collect member
    obtain ⟨call, made, reads⟩ := mem_readings.mp read
    obtain ⟨clock, k, given, rfl⟩ := queueCall_clock made reads
    exact ⟨clock, List.mem_filterMap.mpr ⟨event, inside, given⟩, k, rfl⟩
  constructor
  · intro reading member
    obtain ⟨clock, inside, k, rfl⟩ := origin member
    exact fun i j less => forward.1 clock inside (Nat.add_le_add_left less k)
  · induction events generalizing s with
    | nil => exact List.Pairwise.nil
    | cons event rest ih =>
      have tail : Chronological (rest.filterMap Event.clock) :=
        forward.sublist ((List.sublist_cons_self event rest).filterMap _)
      refine List.pairwise_append.mpr ⟨?_, ih _ tail, ?_⟩
      · unfold readings queueCalls
        cases s.queueCall event with
        | none => exact List.Pairwise.nil
        | some call => cases read : call.clock <;> simp [read]
      · intro first here last later i
        obtain ⟨call, made, reads⟩ := mem_readings.mp here
        obtain ⟨clock, k, given, rfl⟩ := queueCall_clock made reads
        obtain ⟨clock', inside, k', rfl⟩ := origin later
        rw [List.filterMap_cons_some given] at forward
        have across := (List.pairwise_cons.mp forward.2).1 clock' inside (k + i)
        exact across.trans (forward.1 clock' (List.mem_cons_of_mem _ inside) (Nat.zero_le _))

/-- With a wall clock that does not go back from one call under the lock to the next, and as long as no retry makes a
task wait for longer than an entry it has, every task is available when it is dispatched. -/
theorem delays_respected_when (config : Settings) (events : List Event)
    (forward : Chronological (Machine.collect step readings (init config) events))
    (inTurn : Machine.Along step (fun s event => ∀ call ∈ s.queueCall event, RetriesInTurn s.engine.queue call)
      (init config) events) :
    Machine.Along step (fun s event => ∀ id ∈ s.dispatched event, ∀ clock ∈ event.clock,
      ∀ task ∈ s.engine.queue.task? id, task.availableAt ≤ clock 0) (init config) events := by
  have calls : Chronological ((callsOf config events).filterMap Call.clock) := by
    rw [callsOf, Machine.collect_filterMap]
    exact forward
  have due := run_due (represented_init config.maxQueueDepth) (heaped_init _) calls
    (fun clock _ id => onTime_init _ _ id) ((along_calls config events).mpr inTurn)
  refine Machine.Along.imp ?_ ((along_calls config events).mp due)
  intro s event handsOut id dispatched clock read task named
  obtain ⟨call, made, handed, reads⟩ := dispatched_clock dispatched read
  exact handsOut call made id handed clock reads task named

theorem chronological_constant (times : List ℚ) (sorted : times.Pairwise (· ≤ ·)) :
    Chronological (times.map fun now _ => now) := by
  refine ⟨fun clock member => ?_, List.pairwise_map.mpr (sorted.imp fun less _ => less)⟩
  obtain ⟨now, _, rfl⟩ := List.mem_map.mp member
  exact monotone_const

theorem delays_respected_sample :
    Machine.Along step (fun s event => ∀ id ∈ s.dispatched event, ∀ clock ∈ event.clock,
      ∀ task ∈ s.engine.queue.task? id, task.availableAt ≤ clock 0) (init {}) sampleRetry :=
  delays_respected_when {} sampleRetry
    (chronological_readings _ (chronological_constant [0, 1, 1, 2, 2, 4, 4, 6] (by decide +kernel))) (by decide +kernel)

/-- A queued task retried by hand is to wait for its backoff, and the entry of its submission lets it go at once. -/
def sampleEarly : List Event :=
  [.registerWorker (sampleWorker "w") 0, .submit sampleBackoff (fun _ => 1), .proceed (fun _ => 1),
    .retryTask "a" (fun _ => 2), .proceed (fun _ => 2), .reserveTask "w" 0, .reserveEnters 0 3,
    .reservePass 0 (fun _ => 3) 3]

theorem delays_respected_fails :
    Chronological (sampleEarly.filterMap Event.clock) ∧
      ¬ Machine.Along step (fun s event => ∀ id ∈ s.dispatched event, ∀ clock ∈ event.clock,
        ∀ task ∈ s.engine.queue.task? id, task.availableAt ≤ clock 0) (init {}) sampleEarly := by
  constructor
  · exact chronological_constant [0, 1, 1, 2, 2, 3] (by decide +kernel)
  · decide +kernel

end System

end TaskRunner
