import TaskRunner.Workers.Manager

/-!
The capacity of a worker that has not been stopped: a consumer lives on to its next reservation unless a call raised
under it, and then it never reserves again.
-/

namespace TaskRunner
open Base

namespace WorkerRuntime

variable {n : ℕ}

/-- The consumer can go on to another call of `transport.reserve`. -/
def Returns (s : WorkerRuntime n) (i : Fin n) : Prop :=
  ∃ more, .stop ∉ more ∧ i ∈ Machine.collect step reserves s more

/-- The loop is still running and will reserve again. -/
def Serves (s : WorkerRuntime n) (i : Fin n) : Prop :=
  (∀ ending, (s.consumers i).phase ≠ .ended ending) ∧ s.Returns i

/-! ### A consumer that is lost -/

/-- The loop has ended, or awaits an execution that ended badly. -/
def Doomed (s : WorkerRuntime n) (i : Fin n) : Prop :=
  (∃ ending, (s.consumers i).phase = .ended ending) ∨
    ∃ e ending, (s.consumers i).phase = .awaiting e ∧ e < s.created ∧ (s.executions e).phase = .ended ending ∧
      ending ≠ .returned

theorem step_doomed {s : WorkerRuntime n} {i : Fin n} (doomed : Doomed s i) (event : RuntimeEvent n) :
    Doomed (s.step event) i ∧ i ∉ s.reserves event := by
  have moved := step_moves s event i
  rw [mem_reserves]
  rcases doomed with ⟨ending, over_⟩ | ⟨e, ending, awaiting, known, ended, bad⟩
  · rw [over_] at moved ⊢
    generalize next : ((s.step event).consumers i).phase = phase at moved ⊢
    cases moved with
    | stays => exact ⟨Or.inl ⟨ending, next⟩, fun called => by cases called.2⟩
    | loops ready =>
      rcases ready with created | sleeping | ⟨_, awaiting, _⟩
      · cases created
      · cases sleeping
      · cases awaiting
  · rw [awaiting] at moved ⊢
    generalize next : ((s.step event).consumers i).phase = phase at moved ⊢
    cases moved with
    | stays =>
      refine ⟨Or.inr ⟨e, ending, next, Nat.lt_of_lt_of_le known (created_le s event), ?_, bad⟩, ?_⟩
      · exact (step_advances s event known).ended ended
      · intro called
        cases called.2
    | loops ready =>
      rcases ready with created | sleeping | ⟨f, same, returned⟩
      · cases created
      · cases sleeping
      · cases same
        rw [ended] at returned
        cases returned
        exact (bad rfl).elim
    | fails => exact ⟨Or.inl ⟨_, next⟩, fun called => by cases called.2⟩

theorem run_doomed {s : WorkerRuntime n} {i : Fin n} (doomed : Doomed s i) (events : List (RuntimeEvent n)) :
    Doomed (Machine.run step s events) i ∧ i ∉ Machine.collect step reserves s events := by
  induction events generalizing s with
  | nil => exact ⟨doomed, List.not_mem_nil⟩
  | cons event rest ih =>
    obtain ⟨next, silent⟩ := step_doomed doomed event
    obtain ⟨last, later⟩ := ih next
    exact ⟨last, fun called => (List.mem_append.mp called).elim silent later⟩

theorem not_serves_of_doomed {s : WorkerRuntime n} {i : Fin n} (doomed : Doomed s i) : ¬ s.Serves i := by
  intro serves
  obtain ⟨more, _, called⟩ := serves.2
  exact (run_doomed doomed more).2 called

/-- Whatever call raises, a consumer is lost with it. -/
theorem doomed_of_raises {s : WorkerRuntime n} (attended : Attended s) {event : RuntimeEvent n} (raises : s.Raises event) :
    ∃ i, Doomed (s.step event) i := by
  cases event with
  | reserve i reservation =>
    obtain ⟨reserving, free, rfl⟩ := raises
    refine ⟨i, Or.inl ⟨.raised, ?_⟩⟩
    simp [step, reserving, goOn, free]
  | execute e ending =>
    obtain ⟨known, executing, bad, _⟩ := raises
    obtain ⟨i, awaiting⟩ := attended.awaited e known (by rw [executing]; rfl)
    refine ⟨i, Or.inr ⟨e, ending, ?_⟩⟩
    simp [step, known, executing, awaiting, bad, setExecution]
  | report e ending =>
    obtain ⟨known, reporting, free, bad⟩ := raises
    obtain ⟨i, awaiting⟩ := attended.awaited e known (by rw [reporting]; rfl)
    refine ⟨i, Or.inr ⟨e, ending, ?_⟩⟩
    simp [step, known, reporting, awaiting, free, bad, setExecution]
  | recordRaises e =>
    obtain ⟨known, reporting, sent, free⟩ := raises
    obtain ⟨i, awaiting⟩ := attended.awaited e known (by rw [reporting]; rfl)
    refine ⟨i, Or.inr ⟨e, .raised, ?_⟩⟩
    simp [step, known, reporting, sent, awaiting, free, setExecution]
  | _ => exact raises.elim

theorem doomed_of_raised {s : WorkerRuntime n} (attended : Attended s) {events : List (RuntimeEvent n)}
    (raised : ¬ Machine.Along step (fun s event => ¬ s.Raises event) s events) :
    ∃ i, Doomed (Machine.run step s events) i := by
  induction events generalizing s with
  | nil => exact (raised trivial).elim
  | cons event rest ih =>
    by_cases raises : s.Raises event
    · obtain ⟨i, doomed⟩ := doomed_of_raises attended raises
      exact ⟨i, (run_doomed doomed rest).1⟩
    · exact ih (step_attended attended event) fun quiet => raised ⟨raises, quiet⟩

/-! ### A worker that nothing happened to -/

/-- Nobody has asked the worker to stop, and nothing is marked. -/
structure Calm (s : WorkerRuntime n) : Prop where
  stop : s.stop = false
  main : s.main = .waiting
  consumers : ∀ i, (s.consumers i).cancelling = false
  executions : ∀ e, (s.executions e).cancelling = false

/-- No loop has ended, and no execution under one has ended badly. -/
structure Healthy (s : WorkerRuntime n) : Prop where
  running : ∀ i ending, (s.consumers i).phase ≠ .ended ending
  awaited : ∀ i e, (s.consumers i).phase = .awaiting e →
    e < s.created ∧ ∀ ending, (s.executions e).phase = .ended ending → ending = .returned

section Steps

variable {s : WorkerRuntime n} (calm : Calm s)
include calm

theorem Calm.goOn (i : Fin n) (next : WorkerRuntime n) : s.goOn i next = next :=
  if_neg (by rw [calm.consumers i]; decide)

theorem Calm.loop (i : Fin n) : s.goOn i (s.loop i) = s.setConsumer i { phase := .reserving } := by
  rw [calm.goOn, WorkerRuntime.loop, calm.stop]
  rfl

theorem Calm.setConsumer (i : Fin n) (phase : ConsumerPhase) : Calm (s.setConsumer i { phase }) := by
  refine ⟨calm.stop, calm.main, fun j => ?_, calm.executions⟩
  rw [setConsumer_consumers]
  split
  · rfl
  · exact calm.consumers j

theorem Calm.setExecution (e : ℕ) {execution : Execution} (unmarked : execution.cancelling = false) :
    Calm (s.setExecution e execution) := by
  refine ⟨calm.stop, calm.main, calm.consumers, fun f => ?_⟩
  rw [setExecution_executions]
  split
  · exact unmarked
  · exact calm.executions f

theorem Calm.spawn (i : Fin n) : Calm (s.spawn i) := by
  refine ⟨calm.stop, calm.main, (calm.setConsumer i _).consumers, fun f => ?_⟩
  show (Function.update s.executions s.created {} f).cancelling = false
  rw [Function.update_apply]
  split
  · rfl
  · exact calm.executions f

theorem Steps.keeps_calm {t : WorkerRuntime n} {event : RuntimeEvent n} (steps : Steps s event t)
    (unstopped : event ≠ .stop) : Calm t := by
  cases steps with
  | stays => exact calm
  | stop => exact (unstopped rfl).elim
  | @cancelled event i resumes marked =>
    rw [calm.consumers i] at marked
    cases marked
  | loops | sleeps | raises | fails => exact calm.setConsumer ..
  | spawns => exact calm.spawn _
  | executed => exact calm.setExecution _ rfl
  | sends | interrupted | reported | recordRaises => exact calm.setExecution _ (calm.executions _)
  | discards | heartbeat => exact ⟨calm.stop, calm.main, calm.consumers, calm.executions⟩
  | drains stopped =>
    rw [calm.stop] at stopped
    cases stopped
  | joins begun => exact (begun calm.main).elim

theorem step_calm {event : RuntimeEvent n} (unstopped : event ≠ .stop) : Calm (s.step event) :=
  (step_steps s event).keeps_calm calm unstopped

end Steps

theorem Healthy.setConsumer {s : WorkerRuntime n} (healthy : Healthy s) (i : Fin n) {phase : ConsumerPhase}
    (plain : phase = .reserving ∨ phase = .sleeping) : Healthy (s.setConsumer i { phase }) := by
  refine ⟨fun j ending => ?_, fun j e => ?_⟩
  · rw [setConsumer_consumers]
    split
    · rcases plain with rfl | rfl <;> exact fun same => by cases same
    · exact healthy.running j ending
  · rw [setConsumer_consumers]
    split
    · rcases plain with rfl | rfl <;> exact fun same => by cases same
    · exact healthy.awaited j e

theorem Healthy.setExecution {s : WorkerRuntime n} (healthy : Healthy s) (e : ℕ) {execution : Execution}
    (well : ∀ ending, execution.phase = .ended ending → ending = .returned) : Healthy (s.setExecution e execution) := by
  refine ⟨healthy.running, fun j f awaiting => ?_⟩
  obtain ⟨known, sound⟩ := healthy.awaited j f awaiting
  refine ⟨known, ?_⟩
  rw [setExecution_executions]
  split
  · exact well
  · exact sound

theorem Healthy.spawn {s : WorkerRuntime n} (healthy : Healthy s) (i : Fin n) : Healthy (s.spawn i) := by
  have consumer : ∀ j, (s.spawn i).consumers j = if j = i then { phase := .awaiting s.created } else s.consumers j :=
    fun j => setConsumer_consumers ..
  refine ⟨fun j ending => ?_, fun j e awaiting => ?_⟩
  · rw [consumer]
    split
    · exact fun same => by cases same
    · exact healthy.running j ending
  · rw [consumer] at awaiting
    show e < s.created + 1 ∧ ∀ ending, (Function.update s.executions s.created {} e).phase = .ended ending → _
    split at awaiting
    · cases awaiting
      rw [Function.update_self]
      exact ⟨Nat.lt_succ_self _, fun ending same => by cases same⟩
    · obtain ⟨known, sound⟩ := healthy.awaited j e awaiting
      rw [Function.update_of_ne (Nat.ne_of_lt known)]
      exact ⟨Nat.lt_succ_of_lt known, sound⟩

theorem Steps.keeps_healthy {s t : WorkerRuntime n} {event : RuntimeEvent n} (steps : Steps s event t) (calm : Calm s)
    (healthy : Healthy s) (quiet : ¬ s.Raises event) : Healthy t := by
  cases steps with
  | stays => exact healthy
  | @cancelled event i resumes marked =>
    rw [calm.consumers i] at marked
    cases marked
  | loops =>
    unfold loop
    rw [calm.stop]
    exact healthy.setConsumer _ (Or.inl rfl)
  | @spawns i => exact healthy.spawn i
  | sleeps => exact healthy.setConsumer _ (Or.inr rfl)
  | raises reserving free => exact (quiet ⟨reserving, free, rfl⟩).elim
  | @fails event i e ending awaiting ended bad => exact (bad ((healthy.awaited i e awaiting).2 ending ended)).elim
  | @executed e ending known executing =>
    apply healthy.setExecution e
    intro last
    have returned : ending = .returned := by
      by_contra bad
      exact quiet ⟨known, executing, bad, fun marked => by rw [calm.executions e] at marked; cases marked.1⟩
    rw [if_pos returned]
    exact fun same => by cases same
  | @sends e reporting =>
    apply healthy.setExecution e
    intro last
    show (s.executions e).phase = _ → _
    rw [reporting]
    exact fun same => by cases same
  | @interrupted e ending reporting marked =>
    rw [calm.executions e] at marked
    cases marked
  | @reported e ending known reporting free =>
    have returned : ending = .returned := by
      by_contra bad
      exact quiet ⟨known, reporting, free, bad⟩
    exact healthy.setExecution e fun last same => by cases same; exact returned
  | recordRaises known reporting sent free => exact (quiet ⟨known, reporting, sent, free⟩).elim
  | stop | discards | heartbeat => exact ⟨healthy.running, healthy.awaited⟩
  | drains stopped =>
    rw [calm.stop] at stopped
    cases stopped
  | joins begun => exact (begun calm.main).elim

/-- As long as no call raises, no loop is lost. -/
theorem step_healthy {s : WorkerRuntime n} (calm : Calm s) (healthy : Healthy s) {event : RuntimeEvent n}
    (quiet : ¬ s.Raises event) : Healthy (s.step event) := (step_steps s event).keeps_healthy calm healthy quiet

/-! ### On to the next reservation -/

theorem returns_of_step {s : WorkerRuntime n} {i : Fin n} (event : RuntimeEvent n) (unstopped : event ≠ .stop)
    (later : (s.step event).Returns i) : s.Returns i := by
  obtain ⟨more, unstopped', called⟩ := later
  refine ⟨event :: more, ?_, List.mem_append_right _ called⟩
  intro member
  rcases List.mem_cons.mp member with same | later
  · exact unstopped same.symm
  · exact unstopped' later

theorem returns_of_reserves {s : WorkerRuntime n} {i : Fin n} {event : RuntimeEvent n} (unstopped : event ≠ .stop)
    (called : i ∈ s.reserves event) : s.Returns i := by
  refine ⟨[event], ?_, List.mem_append_left _ called⟩
  rw [List.mem_singleton]
  exact Ne.symm unstopped

theorem returns_of_loop {s : WorkerRuntime n} (calm : Calm s) {i : Fin n} (event : RuntimeEvent n)
    (unstopped : event ≠ .stop) (elsewhere : (s.consumers i).phase ≠ .reserving)
    (top : s.step event = s.goOn i (s.loop i)) : s.Returns i := by
  refine returns_of_reserves unstopped (mem_reserves.mpr ⟨elsewhere, ?_⟩)
  rw [top, calm.loop]
  exact congrArg Consumer.phase (setConsumer_self ..)

section Awaiting

variable {s : WorkerRuntime n} (calm : Calm s) {i : Fin n} {e : ℕ} (awaiting : (s.consumers i).phase = .awaiting e)
include calm awaiting

theorem returns_of_returned (returned : (s.executions e).phase = .ended .returned) : s.Returns i := by
  apply returns_of_loop calm (.resume i) (by simp)
  · rw [awaiting]
    exact fun same => by cases same
  · simp only [step, awaiting, returned]

variable (known : e < s.created)
include known

theorem returns_of_sent (reporting : (s.executions e).phase = .reporting) (sent : (s.executions e).sent = true) :
    s.Returns i := by
  have next : s.step (.report e .returned) =
      s.setExecution e { s.executions e with phase := .ended .returned } := by
    simp [step, known, reporting, sent, calm.executions e]
  apply returns_of_step (.report e .returned) (by simp)
  have calm' : Calm (s.setExecution e { s.executions e with phase := .ended .returned }) :=
    calm.setExecution e (calm.executions e)
  rw [next]
  exact returns_of_returned calm' awaiting (by rw [setExecution_self])

theorem returns_of_reporting (reporting : (s.executions e).phase = .reporting) : s.Returns i := by
  have next : s.step (.send e) = s.setExecution e { s.executions e with sent := true } := by
    simp [step, known, reporting, calm.executions e]
  apply returns_of_step (.send e) (by simp)
  have calm' : Calm (s.setExecution e { s.executions e with sent := true }) :=
    calm.setExecution e (calm.executions e)
  rw [next]
  apply returns_of_sent calm' awaiting known
  · rw [setExecution_self]
    exact reporting
  · rw [setExecution_self]

theorem returns_of_executing (executing : (s.executions e).phase = .executing) : s.Returns i := by
  have next : s.step (.execute e .returned) =
      s.setExecution e { s.executions e with phase := .reporting, cancelling := false } := by
    simp [step, known, executing]
  apply returns_of_step (.execute e .returned) (by simp)
  rw [next]
  exact returns_of_reporting (calm.setExecution e rfl) awaiting known (by rw [setExecution_self])

end Awaiting

/-- From wherever it stands, a consumer gets to its next reservation when its calls end well. -/
theorem serves_of_healthy {s : WorkerRuntime n} (calm : Calm s) (healthy : Healthy s) (i : Fin n) : s.Serves i := by
  refine ⟨healthy.running i, ?_⟩
  cases phase : (s.consumers i).phase with
  | ended ending => exact (healthy.running i ending phase).elim
  | created =>
    apply returns_of_loop calm (.start i) (by simp)
    · rw [phase]
      decide
    · simp only [step, phase]
  | sleeping =>
    apply returns_of_loop calm (.wake i) (by simp)
    · rw [phase]
      decide
    · simp only [step, phase]
  | reserving =>
    have next : s.step (.reserve i .nothing) = s.setConsumer i { phase := .sleeping } := by
      simp only [step, phase, calm.goOn]
    apply returns_of_step (.reserve i .nothing) (by simp)
    rw [next]
    apply returns_of_loop (calm.setConsumer i _) (.wake i) (by simp)
    · rw [setConsumer_self]
      decide
    · simp only [step, setConsumer_self]
  | awaiting e =>
    obtain ⟨known, sound⟩ := healthy.awaited i e phase
    cases execution : (s.executions e).phase with
    | executing => exact returns_of_executing calm phase known execution
    | reporting => exact returns_of_reporting calm phase known execution
    | ended ending =>
      rw [sound ending execution] at execution
      exact returns_of_returned calm phase execution

theorem calm_init : Calm (init n) := ⟨rfl, rfl, fun _ => rfl, fun _ => rfl⟩

theorem healthy_init : Healthy (init n) := by
  refine ⟨fun i ending => ?_, fun i e awaiting => ?_⟩
  · exact fun same => by cases same
  · cases awaiting

theorem along_unstopped {events : List (RuntimeEvent n)} (unstopped : .stop ∉ events) (s : WorkerRuntime n) :
    Machine.Along step (fun _ event => event ≠ .stop) s events := by
  refine Machine.along_of_forall ?_ s
  rintro event member rfl
  exact unstopped member

theorem after_calm {events : List (RuntimeEvent n)} (unstopped : .stop ∉ events) : Calm (after n events) :=
  Machine.run_invariant_along (I := Calm) (fun _ _ calm going => step_calm calm going) calm_init
    (along_unstopped unstopped (init n))

theorem after_healthy {events : List (RuntimeEvent n)} (unstopped : .stop ∉ events)
    (quiet : Machine.Along step (fun s event => ¬ s.Raises event) (init n) events) : Healthy (after n events) := by
  let I : WorkerRuntime n → Prop := fun s => Calm s ∧ Healthy s
  have whole : I (after n events) := by
    refine Machine.run_invariant_along (I := I) ?_ ⟨calm_init, healthy_init⟩
      ((along_unstopped unstopped (init n)).and quiet)
    intro s event given met
    exact ⟨step_calm given.1 met.1, step_healthy given.1 given.2 met.2⟩
  exact whole.2

/-- While the worker is not stopped, every consumer is running and will reserve again exactly when no reservation, no
execution and no report has raised so far, and nothing that is recorded of them either. -/
theorem serves_iff (n : ℕ) (events : List (RuntimeEvent n)) (unstopped : .stop ∉ events) :
    (∀ i, (after n events).Serves i) ↔ Machine.Along step (fun s event => ¬ s.Raises event) (init n) events := by
  constructor
  · intro serves
    by_contra raised
    obtain ⟨i, doomed⟩ := doomed_of_raised attended_init raised
    exact not_serves_of_doomed doomed (serves i)
  · intro quiet i
    exact serves_of_healthy (after_calm unstopped) (after_healthy unstopped quiet) i

/-- One consumer has reported a task, another has been told that there is none. -/
def sampleWork : List (RuntimeEvent 3) :=
  [.start 0, .start 1, .start 2, .reserve 0 .task, .reserve 1 .nothing, .execute 0 .returned, .send 0, .wake 1,
    .report 0 .returned, .discard 0, .resume 0]

theorem serves_sample :
    (after 3 sampleWork).Serves 0 ∧ (after 3 sampleWork).Serves 1 ∧ (after 3 sampleWork).Serves 2 := by
  have serves := (serves_iff 3 sampleWork (by decide)).mpr (by decide)
  exact ⟨serves 0, serves 1, serves 2⟩

/-- The scheduler rejects the report of a task it does not know, the result of another task is delivered but cannot be
copied, and a call of `reserve` fails. -/
def sampleLoss : List (RuntimeEvent 3) :=
  [.start 0, .start 1, .start 2, .reserve 0 .task, .execute 0 .returned, .send 0, .report 0 .raised, .discard 0,
    .resume 0, .reserve 1 .task, .execute 1 .returned, .send 1, .recordRaises 1, .discard 1, .resume 1,
    .reserve 2 .raised]

theorem serves_fails : .stop ∉ sampleLoss ∧ (∀ i, ((after 3 sampleLoss).consumers i).phase = .ended .raised) ∧
    ∀ i, ¬ (after 3 sampleLoss).Serves i := by
  have ended : ∀ i, ((after 3 sampleLoss).consumers i).phase = .ended .raised := by decide
  exact ⟨by decide, ended, fun i serves => serves.1 .raised (ended i)⟩

end WorkerRuntime

end TaskRunner
