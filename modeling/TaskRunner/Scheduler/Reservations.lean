import TaskRunner.Scheduler.Projection

/-!
The `reserve_task` calls of the scheduler, over runs: the worker object each one serves, and the task it has
returned and not yet answered with.
-/

namespace TaskRunner
open Base InMemoryTaskQueue

namespace System

theorem step_registry (s : System) (event : Event) : SchedulerEngine.Registry s.engine (s.step event).engine := by
  rcases proceed_or_stays s event with ⟨clock, rfl⟩ | stays
  · obtain ⟨_, workers, objects, allocated⟩ := proceed_workers s clock
    exact .same workers objects allocated
  · exact stays.registry

theorem resume_calls (s : System) (outcome : Except QueueError TaskRef × InMemoryTaskQueue) (frame : TaskRef → Frame) :
    (s.resume outcome frame).calls = s.calls ∧ (s.resume outcome frame).nextCall = s.nextCall := by
  unfold resume
  dsimp only
  split <;> exact ⟨rfl, rfl⟩

theorem proceed_calls (s : System) (clock : Clock) :
    (s.proceed clock).calls = s.calls ∧ (s.proceed clock).nextCall = s.nextCall := by
  unfold proceed
  cases s.frame with
  | settleReport result =>
    dsimp only
    split <;> exact ⟨rfl, rfl⟩
  | storeTasks tasks => cases tasks <;> exact ⟨rfl, rfl⟩
  | _ => exact ⟨rfl, rfl⟩

/-- What one pass leaves of its call: nothing, the call still waiting or returning none, or the call returning
the task it handed out. -/
theorem passCall_calls {s : System} (rep : Represented s.engine.queue) (call : ℕ) (c : ReserveCall) (shared : Bool)
    (deadline : ℚ) (clock : Clock) (monotonic : ℚ) :
    (s.passCall call c shared deadline clock monotonic).nextCall = s.nextCall ∧
      ((∃ phase, (s.passCall call c shared deadline clock monotonic).calls = s.calls.set call { c with phase } ∧
          (phase = .returned none ∨ phase = c.phase) ∧
          s.engine.queue.handed (.reserve (s.engine.workerObjects c.worker) (s.completedFor shared)
            s.engine.config.leaseSeconds clock) = none) ∨
        ∃ task id, (s.passCall call c shared deadline clock monotonic).calls =
            s.calls.set call { c with phase := .returned (some task) } ∧ s.engine.queue.tasks.get? id = some task ∧
          s.engine.queue.handed (.reserve (s.engine.workerObjects c.worker) (s.completedFor shared)
            s.engine.config.leaseSeconds clock) = some id) := by
  rcases reserve_spec rep (s.engine.workerObjects c.worker) (s.completedFor shared) s.engine.config.leaseSeconds
      clock with ⟨r, result, _⟩ | ⟨r, id, task, result, dispatched⟩
  · unfold passCall
    rw [result]
    refine ⟨rfl, Or.inl ⟨_, rfl, ?_, handed_none result⟩⟩
    split
    · exact Or.inl rfl
    · exact Or.inr rfl
  · unfold passCall
    rw [result]
    exact ⟨rfl, Or.inr ⟨task, id, rfl, dispatched.found, handed_some result dispatched⟩⟩

/-- What a step does to the reserve calls: nothing, or it begins one, takes one on that has not returned, or ends one. -/
inductive CallsAfter (s : System) (event : Event) (t : System) : Prop where
  | kept (calls : t.calls = s.calls) (nextCall : t.nextCall = s.nextCall)
  | begun (workerId : String) (timeout : ℚ) (worker : WorkerRef) (begins : event = .reserveTask workerId timeout)
      (reservable : s.engine.reservable workerId = some worker)
      (calls : t.calls = s.calls.set s.nextCall { worker, timeout, phase := .scheduled })
      (nextCall : t.nextCall = s.nextCall + 1)
  | moved (call : ℕ) (c : ReserveCall) (phase : ReservePhase) (found : s.calls.get? call = some c)
      (running : ∀ task, c.phase ≠ .returned task) (calls : t.calls = s.calls.set call { c with phase })
      (nextCall : t.nextCall = s.nextCall)
      (reached : phase = c.phase ∨
        ∀ task, phase = .returned (some task) → ∃ id, s.engine.queue.tasks.get? id = some task)
  | ended (call : ℕ) (answers : event = .reserveReturns call) (calls : t.calls = s.calls.erase call)
      (nextCall : t.nextCall = s.nextCall)

theorem callsAfter_resume (s : System) (event : Event) (outcome : Except QueueError TaskRef × InMemoryTaskQueue)
    (frame : TaskRef → Frame) : CallsAfter s event (s.resume outcome frame) := by
  obtain ⟨calls, nextCall⟩ := resume_calls s outcome frame
  exact .kept calls nextCall

theorem Steps.calls {s t : System} {event : Event} (steps : Steps s event t) (rep : Represented s.engine.queue) :
    CallsAfter s event t := by
  cases steps with
  | @reserveTask workerId timeout worker free reservable => exact .begun workerId timeout worker rfl reservable rfl rfl
  | @reserveEnters call monotonic worker timeout found =>
    refine .moved call _ _ found (fun _ same => by cases same) rfl rfl (Or.inr ?_)
    intro task returned
    cases returned
  | @reservePass call clock monotonic worker timeout shared deadline found =>
    obtain ⟨nextCall, ⟨phase, calls, stays, _⟩ | ⟨task, id, calls, known, _⟩⟩ := passCall_calls rep call
      { worker, timeout, phase := .waiting shared deadline } shared deadline clock monotonic
    · refine .moved call _ phase found (fun _ same => by cases same) calls nextCall ?_
      rcases stays with rfl | same
      · apply Or.inr
        intro task returned
        cases returned
      · exact Or.inl same
    · refine .moved call _ _ found (fun _ same => by cases same) calls nextCall (Or.inr ?_)
      intro other returned
      obtain rfl : task = other := Option.some.inj (ReservePhase.returned.inj returned)
      exact ⟨id, known⟩
  | returnsNone free found => exact .ended _ rfl rfl rfl
  | returnsTask free found => exact .ended _ rfl rfl rfl
  | submit | cancelTask | retryTask => exact callsAfter_resume ..
  | @proceed clock =>
    obtain ⟨calls, nextCall⟩ := proceed_calls s clock
    exact .kept calls nextCall
  | _ => exact .kept rfl rfl

theorem step_callsAfter {s : System} (rep : Represented s.engine.queue) (event : Event) :
    CallsAfter s event (s.step event) := (step_steps s event).calls rep

/-- The reserve calls after a step: those of before, the one that `reserve_task` begins, and the one whose thread
went on, for the same worker and with a task that exists. -/
theorem step_call {s : System} (rep : Represented s.engine.queue) {event : Event} {call : ℕ} {c' : ReserveCall}
    (there : (s.step event).calls.get? call = some c') :
    s.calls.get? call = some c' ∨
      (∃ workerId timeout, event = .reserveTask workerId timeout ∧ call = s.nextCall ∧
        (s.step event).nextCall = s.nextCall + 1 ∧ s.engine.reservable workerId = some c'.worker ∧
        c'.phase = .scheduled) ∨
      ∃ c, s.calls.get? call = some c ∧ c'.worker = c.worker ∧
        (c'.phase = c.phase ∨ ∀ task, c'.phase = .returned (some task) → ∃ id, s.engine.queue.tasks.get? id = some task) := by
  cases step_callsAfter rep event with
  | kept calls =>
    rw [calls] at there
    exact Or.inl there
  | begun workerId timeout worker begins reservable calls nextCall =>
    rw [calls, Dict.get?_set] at there
    split at there
    · rename_i same
      obtain rfl := Option.some.inj there
      exact Or.inr (Or.inl ⟨workerId, timeout, begins, same, nextCall, reservable, rfl⟩)
    · exact Or.inl there
  | moved passing c phase found running calls nextCall reached =>
    rw [calls, Dict.get?_set] at there
    split at there
    · rename_i same
      obtain rfl := Option.some.inj there
      exact Or.inr (Or.inr ⟨c, (congrArg s.calls.get? same).trans found, rfl, reached⟩)
    · exact Or.inl there
  | ended answered answers calls =>
    rw [calls, Dict.get?_erase] at there
    split at there
    · cases there
    · exact Or.inl there

theorem step_returned {s : System} (rep : Represented s.engine.queue) {event : Event} {call : ℕ} {c : ReserveCall}
    {task : Option TaskRef} (there : s.calls.get? call = some c) (returned : c.phase = .returned task)
    (old : call < s.nextCall) (unanswered : event ≠ .reserveReturns call) :
    (s.step event).calls.get? call = some c := by
  cases step_callsAfter rep event with
  | kept calls =>
    rw [calls]
    exact there
  | begun workerId timeout worker begins reservable calls =>
    rw [calls, Dict.get?_set_ne _ (Nat.ne_of_lt old)]
    exact there
  | moved passing other phase found running calls =>
    have different : call ≠ passing := by
      rintro rfl
      obtain rfl : c = other := Option.some.inj (there.symm.trans found)
      exact running task returned
    rw [calls, Dict.get?_set_ne _ different]
    exact there
  | ended answered answers calls =>
    have different : call ≠ answered := by
      rintro rfl
      exact unanswered answers
    rw [calls, Dict.get?_erase_ne _ different]
    exact there

theorem step_dispatched {s : System} (rep : Represented s.engine.queue) {event : Event} {id : String}
    (dispatched : id ∈ s.dispatched event) :
    ∃ call c task, (∃ clock monotonic, event = .reservePass call clock monotonic) ∧ s.calls.get? call = some c ∧
      (s.step event).calls.get? call = some { c with phase := .returned (some task) } ∧
      s.engine.queue.tasks.get? id = some task := by
  obtain ⟨call, clock, monotonic, c, shared, deadline, rfl, found, waiting, handed⟩ := dispatched_pass dispatched
  obtain ⟨worker, timeout, phase⟩ := c
  subst waiting
  obtain ⟨_, ⟨_, _, _, unhanded⟩ | ⟨task, other, calls, known, same⟩⟩ := passCall_calls rep call
    { worker, timeout, phase := .waiting shared deadline } shared deadline clock monotonic
  · rw [unhanded] at handed
    cases handed
  · rw [handed, Option.some.injEq] at same
    subst same
    refine ⟨call, _, task, ⟨clock, monotonic, rfl⟩, found, ?_, known⟩
    simp only [step, found]
    rw [calls, Dict.get?_set_self]

/-- A worker that holds a task held it before the step, or the pass of a call of its own dispatched it. -/
theorem step_heldBy {s : System} (rep : Represented s.engine.queue) {event : Event} {id workerId : String}
    (held : (s.step event).engine.queue.HeldBy id workerId) :
    s.engine.queue.HeldBy id workerId ∨
      ∃ call c task, s.calls.get? call = some c ∧ (s.engine.workerObjects c.worker).workerId = workerId ∧
        (s.step event).calls.get? call = some { c with phase := .returned (some task) } ∧
        s.engine.queue.tasks.get? id = some task := by
  rw [step_queue, queueStep] at held
  cases made : s.queueCall event with
  | none =>
    rw [made] at held
    exact Or.inl held
  | some call =>
    rw [made] at held
    apply (InMemoryTaskQueue.step_heldBy rep held).imp_right
    intro given
    obtain ⟨handed, worker, completed, leaseSeconds, clock, rfl, named⟩ := given
    have dispatched : id ∈ s.dispatched event := by
      rw [System.dispatched, made]
      exact handed
    obtain ⟨call, c, task, ⟨clock', monotonic, rfl⟩, found, after, known⟩ := step_dispatched rep dispatched
    obtain ⟨call', _, c', _, _, same, found', _, rfl, _, _⟩ := queueCall_madeBy made
    obtain rfl : call = call' := (Event.reservePass.inj same).1
    obtain rfl : c = c' := Option.some.inj (found.symm.trans found')
    exact ⟨call, c, task, found, named, after, known⟩

/-! ### What the calls point at -/

/-- Registered names and reserve calls point at worker objects, and what a call has returned is a task. -/
structure Wired (s : System) : Prop where
  registered : ∀ name ref, s.engine.workers.get? name = some ref →
    ref < s.engine.workersAllocated ∧ (s.engine.workerObjects ref).workerId = name
  fresh : ∀ call c, s.calls.get? call = some c → call < s.nextCall
  workers : ∀ call c, s.calls.get? call = some c → c.worker < s.engine.workersAllocated
  returned : ∀ call c task, s.calls.get? call = some c → c.phase = .returned (some task) →
    ∃ id, s.engine.queue.tasks.get? id = some task

theorem wired_init (config : Settings) : Wired (init config) := by
  refine ⟨?_, ?_, ?_, ?_⟩
  · intro name ref found
    cases found
  · intro call c found
    cases found
  · intro call c found
    cases found
  · intro call c task found
    cases found

theorem reservable_registered {e : SchedulerEngine} {workerId : String} {worker : WorkerRef}
    (reservable : e.reservable workerId = some worker) : e.workers.get? workerId = some worker := by
  unfold SchedulerEngine.reservable at reservable
  split at reservable
  · cases reservable
  · rename_i ref found
    split at reservable
    · cases reservable
    · rw [← reservable]
      exact found

theorem step_nextCall {s : System} (rep : Represented s.engine.queue) (event : Event) :
    s.nextCall ≤ (s.step event).nextCall := by
  cases step_callsAfter rep event with
  | kept calls nextCall => exact le_of_eq nextCall.symm
  | begun workerId timeout worker begins reservable calls nextCall => omega
  | moved call c phase found running calls nextCall => exact le_of_eq nextCall.symm
  | ended call answers calls nextCall => exact le_of_eq nextCall.symm

theorem step_wired {s : System} (rep : Represented s.engine.queue) (wired : Wired s) (event : Event) :
    Wired (s.step event) := by
  have registry := step_registry s event
  refine ⟨?_, ?_, ?_, ?_⟩
  · intro name ref found
    rcases registry.workers name ref found with old | ⟨_, there, named⟩
    · obtain ⟨allocated, named⟩ := wired.registered name ref old
      exact ⟨Nat.lt_of_lt_of_le allocated registry.allocated, (registry.names ref allocated).trans named⟩
    · exact ⟨there, named⟩
  · intro call c' found
    rcases step_call rep found with old | ⟨_, _, _, new, next, _⟩ | ⟨c, old, _⟩
    · exact Nat.lt_of_lt_of_le (wired.fresh call c' old) (step_nextCall rep event)
    · omega
    · exact Nat.lt_of_lt_of_le (wired.fresh call c old) (step_nextCall rep event)
  · intro call c' found
    rcases step_call rep found with old | ⟨workerId, timeout, _, _, _, reservable, _⟩ | ⟨c, old, same, _⟩
    · exact Nat.lt_of_lt_of_le (wired.workers call c' old) registry.allocated
    · have known := (wired.registered workerId _ (reservable_registered reservable)).1
      exact Nat.lt_of_lt_of_le known registry.allocated
    · rw [same]
      exact Nat.lt_of_lt_of_le (wired.workers call c old) registry.allocated
  · intro call c' task found returned
    have known : ∃ id, s.engine.queue.tasks.get? id = some task := by
      rcases step_call rep found with old | ⟨_, _, _, _, _, _, scheduled⟩ | ⟨c, old, _, stays | reached⟩
      · exact wired.returned call c' task old returned
      · rw [scheduled] at returned
        cases returned
      · exact wired.returned call c task old (stays.symm.trans returned)
      · exact reached task returned
    obtain ⟨id, named⟩ := known
    exact ⟨id, step_found rep event named⟩

end System

end TaskRunner
