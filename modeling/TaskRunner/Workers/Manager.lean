import TaskRunner.Base.Machine

/-!
The coroutines of `WorkerRuntime` on its event loop: the consumer loops, the executions they await, the heartbeat loop
and `_run_with_transport` from its wait for `_stop` on. What the transport and the tasks' own code do is how the awaited
calls end. `cancel()` on a task that awaits a call only marks it, and on one that awaits another task marks that one;
the mark takes effect when the marked coroutine goes on.
-/

namespace TaskRunner
open Base

/-- How a coroutine or a call of one ends. -/
inductive Ending where
  | returned | raised | cancelled
  deriving DecidableEq

/-- Where `_execute_and_report` stands. -/
inductive ExecutionPhase where
  | executing
  | reporting
  | ended (ending : Ending)
  deriving DecidableEq

structure Execution where
  phase : ExecutionPhase := .executing
  /-- Its report is on its way. -/
  sent : Bool := false
  cancelling : Bool := false

/-- Where `_consume_loop` stands. -/
inductive ConsumerPhase where
  | created
  | reserving
  | sleeping
  | awaiting (execution : ℕ)
  | ended (ending : Ending)
  deriving DecidableEq

structure Consumer where
  phase : ConsumerPhase := .created
  cancelling : Bool := false

/-- Where `_run_with_transport` stands; `joining` has the consumers from this one on still to await. -/
inductive MainPhase where
  | waiting
  | awaitingHeartbeat
  | joining (consumer : ℕ)
  | gathering (executions : Finset ℕ)
  | shutDown
  | raised
  deriving DecidableEq

structure WorkerRuntime (n : ℕ) where
  stop : Bool := false
  consumers : Fin n → Consumer := fun _ => {}
  executions : ℕ → Execution := fun _ => {}
  created : ℕ := 0
  running : Finset ℕ := ∅
  heartbeat : Option Ending := none
  main : MainPhase := .waiting

/-- What `transport.reserve` comes to. -/
inductive Reservation where
  | task | nothing | raised
  deriving DecidableEq

/-- `execute` takes an execution up to its report, with the bookkeeping before the executor is called; `report` ends the
report and, when it comes back, the bookkeeping behind it, which `recordRaises` lets raise. -/
inductive RuntimeEvent (n : ℕ) where
  | stop
  | start (consumer : Fin n)
  | reserve (consumer : Fin n) (reservation : Reservation)
  | wake (consumer : Fin n)
  | execute (execution : ℕ) (ending : Ending)
  | send (execution : ℕ)
  | report (execution : ℕ) (ending : Ending)
  | recordRaises (execution : ℕ)
  | discard (execution : ℕ)
  | resume (consumer : Fin n)
  | heartbeat (ending : Ending)
  | drain
  | joinHeartbeat
  | join
  | gather
  deriving DecidableEq

def ExecutionPhase.isEnded : ExecutionPhase → Bool
  | .ended _ => true
  | _ => false

namespace WorkerRuntime

variable {n : ℕ}

def init (n : ℕ) : WorkerRuntime n := {}

def setConsumer (s : WorkerRuntime n) (i : Fin n) (consumer : Consumer) : WorkerRuntime n :=
  { s with consumers := Function.update s.consumers i consumer }

def setExecution (s : WorkerRuntime n) (e : ℕ) (execution : Execution) : WorkerRuntime n :=
  { s with executions := Function.update s.executions e execution }

/-- A consumer goes on: a cancellation it was marked for comes out of what it awaited. -/
def goOn (s : WorkerRuntime n) (i : Fin n) (next : WorkerRuntime n) : WorkerRuntime n :=
  if (s.consumers i).cancelling then s.setConsumer i { phase := .ended .cancelled } else next

/-- The test at the top of `_consume_loop`, and the call behind it. -/
def loop (s : WorkerRuntime n) (i : Fin n) : WorkerRuntime n :=
  s.setConsumer i { phase := if s.stop then .ended .returned else .reserving }

/-- `create_task` of an execution, which the consumer then awaits. -/
def spawn (s : WorkerRuntime n) (i : Fin n) : WorkerRuntime n :=
  { s with
    executions := Function.update s.executions s.created {}
    created := s.created + 1
    running := insert s.created s.running }.setConsumer i { phase := .awaiting s.created }

/-- `task.cancel()` on a consumer. -/
def cancel (s : WorkerRuntime n) (i : Fin n) : WorkerRuntime n :=
  match (s.consumers i).phase with
  | .ended _ => s
  | .awaiting e =>
    if (s.executions e).phase.isEnded then s.setConsumer i { s.consumers i with cancelling := true }
    else s.setExecution e { s.executions e with cancelling := true }
  | _ => s.setConsumer i { s.consumers i with cancelling := true }

/-- The consumers from one on are awaited in turn; then what is left in `_running` is gathered. -/
def awaitConsumers (s : WorkerRuntime n) (first : ℕ) : WorkerRuntime n :=
  if first < n then { s with main := .joining first }
  else if s.running = ∅ then { s with main := .shutDown }
  else { s with main := .gathering s.running }

def step (s : WorkerRuntime n) : RuntimeEvent n → WorkerRuntime n
  | .stop => { s with stop := true }
  | .start i =>
    match (s.consumers i).phase with
    | .created => s.goOn i (s.loop i)
    | _ => s
  | .reserve i reservation =>
    match (s.consumers i).phase with
    | .reserving =>
      s.goOn i (match reservation with
        | .task => s.spawn i
        | .nothing => s.setConsumer i { phase := .sleeping }
        | .raised => s.setConsumer i { phase := .ended .raised })
    | _ => s
  | .wake i =>
    match (s.consumers i).phase with
    | .sleeping => s.goOn i (s.loop i)
    | _ => s
  | .execute e ending =>
    if e < s.created ∧ (s.executions e).phase = .executing then
      -- a target that is cancelled and comes to a result all the same has used the cancellation up
      s.setExecution e { s.executions e with
        phase := if ending = .returned then .reporting else .ended ending
        cancelling := false }
    else s
  | .send e =>
    if e < s.created ∧ (s.executions e).phase = .reporting ∧ (s.executions e).cancelling = false then
      s.setExecution e { s.executions e with sent := true }
    else s
  | .report e ending =>
    if e < s.created ∧ (s.executions e).phase = .reporting then
      if (s.executions e).cancelling then s.setExecution e { s.executions e with phase := .ended .cancelled }
      else if ending = .returned ∧ (s.executions e).sent = false then s
      else s.setExecution e { s.executions e with phase := .ended ending }
    else s
  | .recordRaises e =>
    -- `result.to_dict()` copies what the task's code returned, and not everything can be copied
    if e < s.created ∧ (s.executions e).phase = .reporting ∧ (s.executions e).sent = true ∧
        (s.executions e).cancelling = false then
      s.setExecution e { s.executions e with phase := .ended .raised }
    else s
  | .discard e => if (s.executions e).phase.isEnded then { s with running := s.running.erase e } else s
  | .resume i =>
    match (s.consumers i).phase with
    | .awaiting e =>
      match (s.executions e).phase with
      | .ended .returned => s.goOn i (s.loop i)
      | .ended ending => s.goOn i (s.setConsumer i { phase := .ended ending })
      | _ => s
    | _ => s
  | .heartbeat ending =>
    if s.heartbeat = none ∧ (ending = .returned → s.stop = true) then { s with heartbeat := some ending } else s
  | .drain =>
    if s.main = .waiting ∧ s.stop = true then
      { (List.finRange n).foldl cancel s with main := .awaitingHeartbeat }
    else s
  | .joinHeartbeat =>
    match s.main, s.heartbeat with
    | .awaitingHeartbeat, some .raised => { s with main := .raised }
    | .awaitingHeartbeat, some _ => s.awaitConsumers 0
    | _, _ => s
  | .join =>
    match s.main with
    | .joining k =>
      if within : k < n then
        match (s.consumers ⟨k, within⟩).phase with
        | .ended .raised => { s with main := .raised }
        | .ended _ => s.awaitConsumers (k + 1)
        | _ => s
      else s
    | _ => s
  | .gather =>
    match s.main with
    | .gathering executions =>
      if ∀ e ∈ executions, (s.executions e).phase.isEnded = true then { s with main := .shutDown } else s
    | _ => s

def after (n : ℕ) (events : List (RuntimeEvent n)) : WorkerRuntime n := Machine.run step (init n) events

/-- The event ends a call, or the bookkeeping around it, with an exception of its own, one that no cancellation
brought. -/
def Raises (s : WorkerRuntime n) : RuntimeEvent n → Prop
  | .reserve i reservation =>
    (s.consumers i).phase = .reserving ∧ (s.consumers i).cancelling = false ∧ reservation = .raised
  | .execute e ending =>
    e < s.created ∧ (s.executions e).phase = .executing ∧ ending ≠ .returned ∧
      ¬ ((s.executions e).cancelling = true ∧ ending = .cancelled)
  | .report e ending =>
    e < s.created ∧ (s.executions e).phase = .reporting ∧ (s.executions e).cancelling = false ∧ ending ≠ .returned
  | .recordRaises e =>
    e < s.created ∧ (s.executions e).phase = .reporting ∧ (s.executions e).sent = true ∧
      (s.executions e).cancelling = false
  | _ => False

instance (s : WorkerRuntime n) : (event : RuntimeEvent n) → Decidable (s.Raises event)
  | .reserve _ _ => inferInstanceAs (Decidable (_ ∧ _ ∧ _))
  | .execute _ _ => inferInstanceAs (Decidable (_ ∧ _ ∧ _ ∧ _))
  | .report _ _ => inferInstanceAs (Decidable (_ ∧ _ ∧ _ ∧ _))
  | .recordRaises _ => inferInstanceAs (Decidable (_ ∧ _ ∧ _ ∧ _))
  | .stop | .start _ | .wake _ | .send _ | .discard _ | .resume _ | .heartbeat _ | .drain | .joinHeartbeat | .join
  | .gather => isFalse id

/-- The consumers that call `transport.reserve` in the step. -/
def reserves (s : WorkerRuntime n) (event : RuntimeEvent n) : List (Fin n) :=
  (List.finRange n).filter fun i =>
    (s.consumers i).phase ≠ .reserving ∧ ((s.step event).consumers i).phase = .reserving

theorem mem_reserves {s : WorkerRuntime n} {event : RuntimeEvent n} {i : Fin n} :
    i ∈ s.reserves event ↔
      (s.consumers i).phase ≠ .reserving ∧ ((s.step event).consumers i).phase = .reserving := by
  simp [reserves]

/-! ### What a step changes -/

section Fields

variable (s : WorkerRuntime n) (i j : Fin n) (e f : ℕ) (consumer : Consumer) (execution : Execution)

theorem setConsumer_consumers :
    (s.setConsumer i consumer).consumers j = if j = i then consumer else s.consumers j := Function.update_apply ..

theorem setExecution_executions :
    (s.setExecution e execution).executions f = if f = e then execution else s.executions f := Function.update_apply ..

@[simp] theorem setConsumer_self : (s.setConsumer i consumer).consumers i = consumer := Function.update_self ..

@[simp] theorem setExecution_self : (s.setExecution e execution).executions e = execution := Function.update_self ..

@[simp] theorem setConsumer_executions : (s.setConsumer i consumer).executions = s.executions := rfl

@[simp] theorem setExecution_consumers : (s.setExecution e execution).consumers = s.consumers := rfl

end Fields

/-- How a step moves a consumer. -/
inductive Moves (s : WorkerRuntime n) : ConsumerPhase → ConsumerPhase → Prop where
  | stays (phase) : Moves s phase phase
  /-- It comes to the top of its loop, or finds itself cancelled on the way there. -/
  | loops {phase next} (ready : phase = .created ∨ phase = .sleeping ∨
      ∃ e, phase = .awaiting e ∧ (s.executions e).phase = .ended .returned)
      (there : next = .reserving ∨ ∃ ending, next = .ended ending) : Moves s phase next
  | answered {next} (there : next = .awaiting s.created ∨ next = .sleeping ∨ ∃ ending, next = .ended ending) :
      Moves s .reserving next
  | fails {e ending last} (ended : (s.executions e).phase = .ended ending) (other : ending ≠ .returned) :
      Moves s (.awaiting e) (.ended last)

theorem Moves.of_eq {s : WorkerRuntime n} {phase next : ConsumerPhase} (same : next = phase) : Moves s phase next := by
  rw [same]
  exact .stays phase

/-- How a step moves an execution there is. -/
inductive Advances (x x' : Execution) : Prop where
  | stays (phase : x'.phase = x.phase) (sent : x'.sent = x.sent)
  | executed (here : x.phase = .executing) (ending : Ending)
      (phase : x'.phase = if ending = .returned then .reporting else .ended ending) (sent : x'.sent = x.sent)
  | sends (here : x.phase = .reporting) (phase : x'.phase = .reporting) (sent : x'.sent = true)
  | reported (here : x.phase = .reporting) (ending : Ending) (phase : x'.phase = .ended ending)
      (sent : x'.sent = x.sent)

/-- Only marks were set. -/
structure Marked (s t : WorkerRuntime n) : Prop where
  phase : ∀ i, (t.consumers i).phase = (s.consumers i).phase
  executions : ∀ e, (t.executions e).phase = (s.executions e).phase ∧ (t.executions e).sent = (s.executions e).sent
  created : t.created = s.created
  running : t.running = s.running

theorem Marked.refl (s : WorkerRuntime n) : Marked s s := ⟨fun _ => rfl, fun _ => ⟨rfl, rfl⟩, rfl, rfl⟩

theorem Marked.trans {s t u : WorkerRuntime n} (first : Marked s t) (last : Marked t u) : Marked s u where
  phase i := (last.phase i).trans (first.phase i)
  executions e := ⟨(last.executions e).1.trans (first.executions e).1, (last.executions e).2.trans (first.executions e).2⟩
  created := last.created.trans first.created
  running := last.running.trans first.running

theorem marked_consumer (s : WorkerRuntime n) (i : Fin n) :
    Marked s (s.setConsumer i { s.consumers i with cancelling := true }) := by
  refine ⟨fun j => ?_, fun _ => ⟨rfl, rfl⟩, rfl, rfl⟩
  rw [setConsumer_consumers]
  split
  · rename_i same
    rw [same]
  · rfl

theorem marked_execution (s : WorkerRuntime n) (e : ℕ) :
    Marked s (s.setExecution e { s.executions e with cancelling := true }) := by
  refine ⟨fun _ => rfl, fun f => ?_, rfl, rfl⟩
  rw [setExecution_executions]
  split
  · rename_i same
    rw [same]
    exact ⟨rfl, rfl⟩
  · exact ⟨rfl, rfl⟩

theorem marked_cancel (s : WorkerRuntime n) (i : Fin n) : Marked s (s.cancel i) := by
  unfold cancel
  split
  · exact .refl s
  · split
    · exact marked_consumer s i
    · exact marked_execution s _
  · exact marked_consumer s i

theorem marked_cancelAll (s : WorkerRuntime n) (consumers : List (Fin n)) : Marked s (consumers.foldl cancel s) := by
  induction consumers generalizing s with
  | nil => exact .refl s
  | cons i rest ih => exact (marked_cancel s i).trans (ih _)

theorem marked_awaitConsumers (s : WorkerRuntime n) (first : ℕ) : Marked s (s.awaitConsumers first) := by
  unfold awaitConsumers
  split
  · exact ⟨fun _ => rfl, fun _ => ⟨rfl, rfl⟩, rfl, rfl⟩
  · split <;> exact ⟨fun _ => rfl, fun _ => ⟨rfl, rfl⟩, rfl, rfl⟩

/-- A consumer in this phase can go on. -/
inductive Resumes (s : WorkerRuntime n) : ConsumerPhase → Prop where
  | created : Resumes s .created
  | reserving : Resumes s .reserving
  | sleeping : Resumes s .sleeping
  | awaiting {e ending} (ended : (s.executions e).phase = .ended ending) : Resumes s (.awaiting e)

/-- A consumer in this phase goes on to the top of its loop. -/
def Loops (s : WorkerRuntime n) (phase : ConsumerPhase) : Prop :=
  phase = .created ∨ phase = .sleeping ∨ ∃ e, phase = .awaiting e ∧ (s.executions e).phase = .ended .returned

theorem Loops.resumes {s : WorkerRuntime n} {phase : ConsumerPhase} (loops : Loops s phase) : Resumes s phase := by
  rcases loops with rfl | rfl | ⟨e, rfl, returned⟩
  · exact .created
  · exact .sleeping
  · exact .awaiting returned

/-- What a step does. It leaves the worker as it is where nothing that the event is about is ready. -/
inductive Steps (s : WorkerRuntime n) : RuntimeEvent n → WorkerRuntime n → Prop where
  | stays {event} : Steps s event s
  | stop : Steps s .stop { s with stop := true }
  | cancelled {event i} (resumes : Resumes s (s.consumers i).phase) (marked : (s.consumers i).cancelling = true) :
      Steps s event (s.setConsumer i { phase := .ended .cancelled })
  | loops {event i} (ready : Loops s (s.consumers i).phase) (free : (s.consumers i).cancelling = false) :
      Steps s event (s.loop i)
  | spawns {i} (reserving : (s.consumers i).phase = .reserving) (free : (s.consumers i).cancelling = false) :
      Steps s (.reserve i .task) (s.spawn i)
  | sleeps {i} (reserving : (s.consumers i).phase = .reserving) (free : (s.consumers i).cancelling = false) :
      Steps s (.reserve i .nothing) (s.setConsumer i { phase := .sleeping })
  | raises {i} (reserving : (s.consumers i).phase = .reserving) (free : (s.consumers i).cancelling = false) :
      Steps s (.reserve i .raised) (s.setConsumer i { phase := .ended .raised })
  | fails {event i e ending} (awaiting : (s.consumers i).phase = .awaiting e)
      (ended : (s.executions e).phase = .ended ending) (bad : ending ≠ .returned)
      (free : (s.consumers i).cancelling = false) : Steps s event (s.setConsumer i { phase := .ended ending })
  | executed {e ending} (known : e < s.created) (executing : (s.executions e).phase = .executing) :
      Steps s (.execute e ending) (s.setExecution e { s.executions e with
        phase := if ending = .returned then .reporting else .ended ending
        cancelling := false })
  | sends {e} (reporting : (s.executions e).phase = .reporting) :
      Steps s (.send e) (s.setExecution e { s.executions e with sent := true })
  | interrupted {e ending} (reporting : (s.executions e).phase = .reporting)
      (marked : (s.executions e).cancelling = true) :
      Steps s (.report e ending) (s.setExecution e { s.executions e with phase := .ended .cancelled })
  | reported {e ending} (known : e < s.created) (reporting : (s.executions e).phase = .reporting)
      (free : (s.executions e).cancelling = false) :
      Steps s (.report e ending) (s.setExecution e { s.executions e with phase := .ended ending })
  | recordRaises {e} (known : e < s.created) (reporting : (s.executions e).phase = .reporting)
      (sent : (s.executions e).sent = true) (free : (s.executions e).cancelling = false) :
      Steps s (.recordRaises e) (s.setExecution e { s.executions e with phase := .ended .raised })
  | discards {e} : Steps s (.discard e) { s with running := s.running.erase e }
  | heartbeat {ending} : Steps s (.heartbeat ending) { s with heartbeat := some ending }
  | drains (stopped : s.stop = true) :
      Steps s .drain { (List.finRange n).foldl cancel s with main := .awaitingHeartbeat }
  /-- The joins of `_run_with_transport` come after the drain and change neither consumers nor executions. -/
  | joins {event t} (begun : s.main ≠ .waiting) (marked : Marked s t) : Steps s event t

theorem goOn_steps {s next : WorkerRuntime n} {event : RuntimeEvent n} {i : Fin n}
    (resumes : Resumes s (s.consumers i).phase) (own : (s.consumers i).cancelling = false → Steps s event next) :
    Steps s event (s.goOn i next) := by
  unfold goOn
  split
  · rename_i marked
    exact .cancelled resumes marked
  · rename_i free
    exact own (Bool.eq_false_iff.mpr free)

theorem loop_steps {s : WorkerRuntime n} {event : RuntimeEvent n} {i : Fin n} (ready : Loops s (s.consumers i).phase) :
    Steps s event (s.goOn i (s.loop i)) := goOn_steps ready.resumes (.loops ready)

theorem step_steps (s : WorkerRuntime n) (event : RuntimeEvent n) : Steps s event (s.step event) := by
  cases event with
  | stop => exact .stop
  | start i =>
    simp only [step]
    split
    · rename_i created
      exact loop_steps (Or.inl created)
    · exact .stays
  | reserve i reservation =>
    simp only [step]
    split
    · rename_i reserving
      have resumes : Resumes s (s.consumers i).phase := by
        rw [reserving]
        exact .reserving
      cases reservation with
      | task => exact goOn_steps resumes (.spawns reserving)
      | nothing => exact goOn_steps resumes (.sleeps reserving)
      | raised => exact goOn_steps resumes (.raises reserving)
    · exact .stays
  | wake i =>
    simp only [step]
    split
    · rename_i sleeping
      exact loop_steps (Or.inr (Or.inl sleeping))
    · exact .stays
  | execute e ending =>
    simp only [step]
    split
    · rename_i executing
      exact .executed executing.1 executing.2
    · exact .stays
  | send e =>
    simp only [step]
    split
    · rename_i reporting
      exact .sends reporting.2.1
    · exact .stays
  | report e ending =>
    simp only [step]
    split
    · rename_i reporting
      split
      · rename_i marked
        exact .interrupted reporting.2 marked
      · rename_i free
        split
        · exact .stays
        · exact .reported reporting.1 reporting.2 (Bool.eq_false_iff.mpr free)
    · exact .stays
  | recordRaises e =>
    simp only [step]
    split
    · rename_i ready
      exact .recordRaises ready.1 ready.2.1 ready.2.2.1 ready.2.2.2
    · exact .stays
  | discard e =>
    simp only [step]
    split
    · exact .discards
    · exact .stays
  | resume i =>
    simp only [step]
    split
    · rename_i e awaiting
      split
      · rename_i returned
        exact loop_steps (Or.inr (Or.inr ⟨e, awaiting, returned⟩))
      · rename_i ending bad ended
        have resumes : Resumes s (s.consumers i).phase := by
          rw [awaiting]
          exact .awaiting ended
        exact goOn_steps resumes (.fails awaiting ended bad)
      · exact .stays
    · exact .stays
  | heartbeat ending =>
    simp only [step]
    split
    · exact .heartbeat
    · exact .stays
  | drain =>
    simp only [step]
    split
    · rename_i stopped
      exact .drains stopped.2
    · exact .stays
  | joinHeartbeat =>
    simp only [step]
    split
    · rename_i begun _
      exact .joins (by rw [begun]; exact MainPhase.noConfusion) ⟨fun _ => rfl, fun _ => ⟨rfl, rfl⟩, rfl, rfl⟩
    · rename_i begun _
      exact .joins (by rw [begun]; exact MainPhase.noConfusion) (marked_awaitConsumers s 0)
    · exact .stays
  | join =>
    simp only [step]
    split
    · rename_i begun
      have joining : s.main ≠ .waiting := by
        rw [begun]
        exact MainPhase.noConfusion
      split
      · split
        · exact .joins joining ⟨fun _ => rfl, fun _ => ⟨rfl, rfl⟩, rfl, rfl⟩
        · exact .joins joining (marked_awaitConsumers s _)
        · exact .stays
      · exact .stays
    · exact .stays
  | gather =>
    simp only [step]
    split
    · rename_i begun
      split
      · exact .joins (by rw [begun]; exact MainPhase.noConfusion) ⟨fun _ => rfl, fun _ => ⟨rfl, rfl⟩, rfl, rfl⟩
      · exact .stays
    · exact .stays

theorem moves_setConsumer {s t : WorkerRuntime n} (same : t.consumers = s.consumers) {i : Fin n} {consumer : Consumer}
    (own : Moves s (s.consumers i).phase consumer.phase) (j : Fin n) :
    Moves s (s.consumers j).phase ((t.setConsumer i consumer).consumers j).phase := by
  rw [setConsumer_consumers]
  split
  · rename_i here
    rw [here]
    exact own
  · rw [same]
    exact .stays _

theorem Resumes.moves {s : WorkerRuntime n} {phase : ConsumerPhase} (resumes : Resumes s phase) :
    Moves s phase (.ended .cancelled) := by
  cases resumes with
  | created => exact .loops (Or.inl rfl) (Or.inr ⟨_, rfl⟩)
  | sleeping => exact .loops (Or.inr (Or.inl rfl)) (Or.inr ⟨_, rfl⟩)
  | reserving => exact .answered (Or.inr (Or.inr ⟨_, rfl⟩))
  | @awaiting e ending ended =>
    by_cases returned : ending = .returned
    · rw [returned] at ended
      exact .loops (Or.inr (Or.inr ⟨e, rfl, ended⟩)) (Or.inr ⟨_, rfl⟩)
    · exact .fails ended returned

theorem Steps.moves {s t : WorkerRuntime n} {event : RuntimeEvent n} (steps : Steps s event t) (j : Fin n) :
    Moves s (s.consumers j).phase (t.consumers j).phase := by
  cases steps with
  | cancelled resumes => exact moves_setConsumer rfl resumes.moves j
  | loops ready =>
    apply moves_setConsumer rfl (.loops ready _) j
    split
    · exact Or.inr ⟨_, rfl⟩
    · exact Or.inl rfl
  | spawns reserving =>
    apply moves_setConsumer rfl _ j
    rw [reserving]
    exact .answered (Or.inl rfl)
  | sleeps reserving =>
    apply moves_setConsumer rfl _ j
    rw [reserving]
    exact .answered (Or.inr (Or.inl rfl))
  | raises reserving =>
    apply moves_setConsumer rfl _ j
    rw [reserving]
    exact .answered (Or.inr (Or.inr ⟨_, rfl⟩))
  | fails awaiting ended bad =>
    apply moves_setConsumer rfl _ j
    rw [awaiting]
    exact .fails ended bad
  | drains => exact .of_eq ((marked_cancelAll s (List.finRange n)).phase j)
  | joins begun marked => exact .of_eq (marked.phase j)
  | _ => exact .stays _

theorem step_moves (s : WorkerRuntime n) (event : RuntimeEvent n) (j : Fin n) :
    Moves s (s.consumers j).phase ((s.step event).consumers j).phase := (step_steps s event).moves j

theorem advances_setExecution {s t : WorkerRuntime n} (same : t.executions = s.executions) {e : ℕ} {execution : Execution}
    (own : Advances (s.executions e) execution) (f : ℕ) :
    Advances (s.executions f) ((t.setExecution e execution).executions f) := by
  rw [setExecution_executions]
  split
  · rename_i here
    rw [here]
    exact own
  · rw [same]
    exact .stays rfl rfl

/-- A step creates no execution, or one that its consumer awaits. -/
theorem Steps.created {s t : WorkerRuntime n} {event : RuntimeEvent n} (steps : Steps s event t) :
    (t.created = s.created ∧ t.running ⊆ s.running) ∨ ∃ i, (s.consumers i).cancelling = false ∧ t = s.spawn i := by
  cases steps with
  | @spawns i reserving free => exact Or.inr ⟨i, free, rfl⟩
  | discards => exact Or.inl ⟨rfl, Finset.erase_subset ..⟩
  | drains =>
    have marked := marked_cancelAll s (List.finRange n)
    exact Or.inl ⟨marked.created, subset_of_eq marked.running⟩
  | joins begun marked => exact Or.inl ⟨marked.created, subset_of_eq marked.running⟩
  | _ => exact Or.inl ⟨rfl, subset_rfl⟩

theorem step_created (s : WorkerRuntime n) (event : RuntimeEvent n) :
    ((s.step event).created = s.created ∧ (s.step event).running ⊆ s.running) ∨
      ∃ i, (s.consumers i).cancelling = false ∧ s.step event = s.spawn i := (step_steps s event).created

theorem Steps.advances {s t : WorkerRuntime n} {event : RuntimeEvent n} (steps : Steps s event t) {f : ℕ}
    (known : f < s.created) : Advances (s.executions f) (t.executions f) := by
  cases steps with
  | spawns =>
    show Advances _ (Function.update s.executions s.created {} f)
    rw [Function.update_of_ne (Nat.ne_of_lt known)]
    exact .stays rfl rfl
  | @executed e ending here executing =>
    refine advances_setExecution rfl ?_ f
    exact .executed executing ending rfl rfl
  | sends reporting =>
    refine advances_setExecution rfl ?_ f
    exact .sends reporting reporting rfl
  | interrupted reporting =>
    refine advances_setExecution rfl ?_ f
    exact .reported reporting .cancelled rfl rfl
  | @reported e ending here reporting =>
    refine advances_setExecution rfl ?_ f
    exact .reported reporting ending rfl rfl
  | recordRaises here reporting =>
    refine advances_setExecution rfl ?_ f
    exact .reported reporting .raised rfl rfl
  | drains =>
    obtain ⟨phase, sent⟩ := (marked_cancelAll s (List.finRange n)).executions f
    exact .stays phase sent
  | joins begun marked =>
    obtain ⟨phase, sent⟩ := marked.executions f
    exact .stays phase sent
  | _ => exact .stays rfl rfl

theorem step_advances (s : WorkerRuntime n) (event : RuntimeEvent n) {f : ℕ} (known : f < s.created) :
    Advances (s.executions f) ((s.step event).executions f) := (step_steps s event).advances known

/-! ### Executions have their consumers -/

theorem Advances.unended {x x' : Execution} (moved : Advances x x') (there : x'.phase.isEnded = false) :
    x.phase.isEnded = false := by
  cases moved with
  | stays phase sent => rwa [phase] at there
  | executed here => rw [here]; rfl
  | sends here => rw [here]; rfl
  | reported here => rw [here]; rfl

theorem Advances.ended {x x' : Execution} (moved : Advances x x') {ending : Ending} (here : x.phase = .ended ending) :
    x'.phase = .ended ending := by
  cases moved with
  | stays phase sent => exact phase.trans here
  | executed executing => rw [executing] at here; cases here
  | sends reporting => rw [reporting] at here; cases here
  | reported reporting => rw [reporting] at here; cases here

theorem Advances.sent {x x' : Execution} (moved : Advances x x') (here : x.sent = true) : x'.sent = true := by
  cases moved with
  | stays phase sent => exact sent.trans here
  | executed executing ending phase sent => exact sent.trans here
  | sends reporting phase sent => exact sent
  | reported reporting ending phase sent => exact sent.trans here

/-- Every execution there is, unless it has ended, is awaited by a consumer. -/
structure Attended (s : WorkerRuntime n) : Prop where
  awaited : ∀ e < s.created, (s.executions e).phase.isEnded = false → ∃ i, (s.consumers i).phase = .awaiting e
  running : ∀ e ∈ s.running, e < s.created

theorem attended_init : Attended (init n) := by
  refine ⟨fun e known => ?_, fun e member => ?_⟩
  · cases known
  · cases member

theorem created_le (s : WorkerRuntime n) (event : RuntimeEvent n) : s.created ≤ (s.step event).created := by
  rcases step_created s event with ⟨same, _⟩ | ⟨i, _, spawned⟩
  · rw [same]
  · rw [spawned]
    exact Nat.le_succ _

/-- A consumer stays with an execution that has not ended. -/
theorem step_awaited {s : WorkerRuntime n} {i : Fin n} {e : ℕ} (awaiting : (s.consumers i).phase = .awaiting e)
    (unended : (s.executions e).phase.isEnded = false) (event : RuntimeEvent n) :
    ((s.step event).consumers i).phase = .awaiting e := by
  have moved := step_moves s event i
  rw [awaiting] at moved
  generalize ((s.step event).consumers i).phase = next at moved
  cases moved with
  | stays => rfl
  | loops ready =>
    rcases ready with created | sleeping | ⟨f, same, returned⟩
    · cases created
    · cases sleeping
    · cases same
      rw [returned] at unended
      cases unended
  | fails ended =>
    rw [ended] at unended
    cases unended

theorem step_attended {s : WorkerRuntime n} (attended : Attended s) (event : RuntimeEvent n) : Attended (s.step event) := by
  have kept : ∀ e < s.created, ((s.step event).executions e).phase.isEnded = false →
      ∃ i, ((s.step event).consumers i).phase = .awaiting e := by
    intro e known unended
    have before := (step_advances s event known).unended unended
    obtain ⟨i, awaiting⟩ := attended.awaited e known before
    exact ⟨i, step_awaited awaiting before event⟩
  rcases step_created s event with ⟨same, running⟩ | ⟨i, _, spawned⟩
  · refine ⟨fun e known => kept e (by rw [← same]; exact known), fun e member => ?_⟩
    rw [same]
    exact attended.running e (running member)
  · refine ⟨fun e known unended => ?_, fun e member => ?_⟩
    · rw [spawned] at known
      rcases Nat.lt_succ_iff_lt_or_eq.mp known with old | rfl
      · exact kept e old unended
      · refine ⟨i, ?_⟩
        rw [spawned]
        exact congrArg Consumer.phase (setConsumer_self ..)
    · rw [spawned] at member ⊢
      rcases Finset.mem_insert.mp member with rfl | old
      · exact Nat.lt_succ_self _
      · exact Nat.lt_succ_of_lt (attended.running e old)

theorem after_attended (events : List (RuntimeEvent n)) : Attended (after n events) :=
  Machine.run_invariant (I := Attended) (fun _ event attended => step_attended attended event) attended_init events

end WorkerRuntime

end TaskRunner
