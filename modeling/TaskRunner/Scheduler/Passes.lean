import TaskRunner.Queue.Passes
import TaskRunner.Scheduler.Reservations

/-!
The scheduler with the passes of `reserve` taken apart. A pass holds the lock of the queue from its promotion to its
end: until then no other call gets into the queue, and the event loop goes on with whatever needs no lock.
-/

namespace TaskRunner
open Base InMemoryTaskQueue

/-- The pass that holds the lock: the call it is for, what its thread knows, and how far its scan has come. -/
structure Pass where
  call : ℕ
  worker : WorkerRef
  timeout : ℚ
  shared : Bool
  deadline : ℚ
  scan : Scan

def Pass.asked (pass : Pass) : ReserveCall where
  worker := pass.worker
  timeout := pass.timeout
  phase := .waiting pass.shared pass.deadline

structure Passing where
  system : System
  pass : Option Pass := none

/-- A slice of a pass, or an event of anything else. -/
inductive Slice where
  | begins (call : ℕ) (now : ℚ)
  | scans
  | ends (now monotonic : ℚ)
  | other (event : Event)

namespace System

/-- The event takes the lock of the queue. -/
def locks (s : System) : Event → Bool
  | .submit .. | .submitBatch .. | .reservePass .. | .reportResult _ | .cancelTask _ | .retryTask .. | .queueSnapshot _
  | .requeueExpired _ => true
  | .proceed _ =>
    match s.frame with
    | .settleReport _ => true
    | _ => false
  | _ => false

def withQueue (s : System) (queue : InMemoryTaskQueue) : System := { s with engine := { s.engine with queue } }

/-- What a waiting call does with the outcome of its pass. -/
def conclude (s : System) (call : ℕ) (c : ReserveCall) (deadline monotonic : ℚ) :
    Except QueueError (Option TaskRef) × InMemoryTaskQueue → System
  | (.error _, queue) => { s.withQueue queue with calls := s.calls.erase call }
  | (.ok (some task), queue) =>
    { s.withQueue queue with calls := s.calls.set call { c with phase := .returned (some task) } }
  | (.ok none, queue) =>
    let remaining := max 0 (deadline - monotonic)
    let phase := if c.timeout = 0 ∨ remaining = 0 then .returned none else c.phase
    { s.withQueue queue with calls := s.calls.set call { c with phase } }

end System

namespace Passing

/-- One step of the scan, against the worker and the completed set as they are now. -/
def scan (p : Passing) (pass : Pass) : Passing :=
  let s := p.system
  match s.engine.queue.scanStep (s.engine.workerObjects pass.worker) (s.completedFor pass.shared) pass.scan with
  | (.error _, queue) => { system := { s.withQueue queue with calls := s.calls.erase pass.call }, pass := none }
  | (.ok scan, queue) => { system := s.withQueue queue, pass := some { pass with scan } }

/-- The end of a pass, with the candidates its scan has found. -/
def finish (p : Passing) (pass : Pass) (candidates : List (ReadyEntry × String)) (now monotonic : ℚ) : Passing where
  system := p.system.conclude pass.call pass.asked pass.deadline monotonic
    (leaseTaken (p.system.engine.workerObjects pass.worker).workerId (now + p.system.engine.config.leaseSeconds)
      (p.system.engine.queue.takeBest candidates))
  pass := none

/-- The event does not happen now: a pass comes in slices here, and while one holds the lock nothing else takes it. -/
def waits (p : Passing) : Event → Bool
  | .reservePass .. => true
  | event => p.pass.isSome && p.system.locks event

def step (p : Passing) : Slice → Passing
  | .begins call now =>
    match p.pass, p.system.calls.get? call with
    | none, some { worker, timeout, phase := .waiting shared deadline } =>
      { system := p.system.withQueue (p.system.engine.queue.promoteDelayedLocked now)
        pass := some { call, worker, timeout, shared, deadline
                       scan := .heaps (p.system.engine.workerObjects worker).queues [] } }
    | _, _ => p
  | .scans =>
    match p.pass with
    | none => p
    | some pass => p.scan pass
  | .ends now monotonic =>
    match p.pass with
    | none => p
    | some pass =>
      match pass.scan with
      | .heaps [] candidates => p.finish pass candidates now monotonic
      | _ => p
  | .other event => if p.waits event then p else { p with system := p.system.step event }

def init (config : Settings) : Passing where
  system := System.init config

def after (config : Settings) (slices : List Slice) : Passing := Machine.run step (init config) slices

/-- The task a pass returns at its end. -/
def dispatched (p : Passing) : Slice → Option TaskRef
  | .ends _ _ =>
    match p.pass with
    | none => none
    | some pass =>
      match pass.scan with
      | .heaps [] candidates =>
        match (p.system.engine.queue.takeBest candidates).1 with
        | .ok taken => taken
        | .error _ => none
      | _ => none
  | _ => none

/-! ### A pass with nothing in between -/

theorem passCall_eq (s : System) (call : ℕ) (c : ReserveCall) (shared : Bool) (deadline : ℚ) (clock : Clock)
    (monotonic : ℚ) :
    s.passCall call c shared deadline clock monotonic = s.conclude call c deadline monotonic
      (s.engine.queue.reserve (s.engine.workerObjects c.worker) (s.completedFor shared) s.engine.config.leaseSeconds
        clock) := by
  unfold System.passCall
  cases s.engine.queue.reserve (s.engine.workerObjects c.worker) (s.completedFor shared) s.engine.config.leaseSeconds
      clock with
  | mk outcome queue =>
    cases outcome with
    | error e => rfl
    | ok taken => cases taken <;> rfl

section Uninterrupted

variable (s : System) {call : ℕ} {worker : WorkerRef} {timeout : ℚ} {shared : Bool} {deadline : ℚ}

theorem run_scans (n : ℕ) (queue : InMemoryTaskQueue) (scan : Scan) :
    Machine.run step ⟨s.withQueue queue, some ⟨call, worker, timeout, shared, deadline, scan⟩⟩
        (List.replicate n .scans) =
      match scanSteps (s.engine.workerObjects worker) (s.completedFor shared) n queue scan with
      | (.error _, queue) => ⟨{ s.withQueue queue with calls := s.calls.erase call }, none⟩
      | (.ok scan, queue) => ⟨s.withQueue queue, some ⟨call, worker, timeout, shared, deadline, scan⟩⟩ := by
  have idle : ∀ (n : ℕ) (t : System), Machine.run step ⟨t, none⟩ (List.replicate n .scans) = ⟨t, none⟩ := by
    intro n t
    induction n with
    | zero => rfl
    | succ n ih => exact ih
  induction n generalizing queue scan with
  | zero => rfl
  | succ n ih =>
    have one : step ⟨s.withQueue queue, some ⟨call, worker, timeout, shared, deadline, scan⟩⟩ .scans =
        match queue.scanStep (s.engine.workerObjects worker) (s.completedFor shared) scan with
        | (.error _, queue) => ⟨{ s.withQueue queue with calls := s.calls.erase call }, none⟩
        | (.ok scan, queue) => ⟨s.withQueue queue, some ⟨call, worker, timeout, shared, deadline, scan⟩⟩ := rfl
    rw [List.replicate_succ, Machine.run_cons, one, scanSteps]
    cases queue.scanStep (s.engine.workerObjects worker) (s.completedFor shared) scan with
    | mk outcome queue' =>
      cases outcome with
      | error e => exact idle n _
      | ok scan' => exact ih queue' scan'

/-- A pass with nothing between its slices is the pass of the scheduler. -/
theorem pass_uninterrupted (waiting : s.calls.get? call = some { worker, timeout, phase := .waiting shared deadline })
    (clock : Clock) (monotonic : ℚ) :
    ∃ n, Machine.run step ⟨s, none⟩
        (.begins call (clock 0) :: (List.replicate n .scans ++ [.ends (clock 1) monotonic])) =
      ⟨s.step (.reservePass call clock monotonic), none⟩ := by
  obtain ⟨n, scanned⟩ := @scan_steps (s.engine.workerObjects worker) (s.completedFor shared)
    (s.engine.workerObjects worker).queues (s.engine.queue.promoteDelayedLocked (clock 0)) []
  have begun : step ⟨s, none⟩ (.begins call (clock 0)) =
      ⟨s.withQueue (s.engine.queue.promoteDelayedLocked (clock 0)),
        some ⟨call, worker, timeout, shared, deadline, .heaps (s.engine.workerObjects worker).queues []⟩⟩ := by
    simp only [step, waiting]
  have passed : s.step (.reservePass call clock monotonic) =
      s.conclude call { worker, timeout, phase := .waiting shared deadline } deadline monotonic
        (leaseTaken (s.engine.workerObjects worker).workerId (clock 1 + s.engine.config.leaseSeconds)
          ((s.engine.queue.promoteDelayedLocked (clock 0)).popEligibleLocked (s.engine.workerObjects worker)
            (s.completedFor shared))) := by
    simp only [System.step, waiting]
    rw [passCall_eq, reserve_eq]
  refine ⟨n, ?_⟩
  rw [Machine.run_cons, begun, Machine.run_append, run_scans, scanned, passed, popEligibleLocked_eq]
  cases scanQueues (s.engine.workerObjects worker) (s.completedFor shared) (s.engine.workerObjects worker).queues
      (s.engine.queue.promoteDelayedLocked (clock 0)) [] with
  | mk outcome queue =>
    cases outcome with
    | error e => rfl
    | ok candidates => rfl

end Uninterrupted

end Passing

/-! ### What slices keep -/

namespace System

theorem unlocked_silent {s : System} {event : Event} (unlocked : s.locks event = false) : s.queueCall event = none := by
  cases event with
  | proceed clock =>
    cases frame : s.frame with
    | settleReport result => simp only [locks, frame, Bool.true_eq_false] at unlocked
    | _ => simp only [queueCall, frame]
  | submit | submitBatch | reservePass | reportResult | cancelTask | retryTask | queueSnapshot | requeueExpired =>
    cases unlocked
  | _ => rfl

theorem unlocked_queue {s : System} {event : Event} (unlocked : s.locks event = false) :
    (s.step event).engine.queue = s.engine.queue := by
  rw [step_queue, queueStep, unlocked_silent unlocked]

/-- Only its own pass moves a waiting call. -/
theorem waiting_kept {s : System} (wired : Wired s) {event : Event} (other : ∀ call clock monotonic,
    event ≠ .reservePass call clock monotonic) {call : ℕ} {c : ReserveCall} {shared : Bool} {deadline : ℚ}
    (there : s.calls.get? call = some c) (waiting : c.phase = .waiting shared deadline) :
    (s.step event).calls.get? call = some c := by
  have apart : ∀ {other : ℕ} {c' : ReserveCall}, s.calls.get? other = some c' → c'.phase ≠ .waiting shared deadline →
      call ≠ other := by
    rintro other c' found different rfl
    obtain rfl := Option.some.inj (there.symm.trans found)
    exact different waiting
  have steps := step_steps s event
  obtain ⟨t, reached⟩ : ∃ t, t = s.step event := ⟨_, rfl⟩
  rw [← reached] at steps ⊢
  cases steps with
  | reserveTask =>
    show (s.calls.set s.nextCall _).get? call = _
    rw [Dict.get?_set_ne _ (Nat.ne_of_lt (wired.fresh call c there))]
    exact there
  | reserveEnters found =>
    show (s.calls.set _ _).get? call = _
    rw [Dict.get?_set_ne _ (apart found fun same => by cases same)]
    exact there
  | reservePass => exact (other _ _ _ rfl).elim
  | returnsNone _ found | returnsTask _ found =>
    show (s.calls.erase _).get? call = _
    rw [Dict.get?_erase_ne _ (apart found fun same => by cases same)]
    exact there
  | submit | cancelTask | retryTask =>
    rw [(resume_calls ..).1]
    exact there
  | @proceed clock =>
    rw [(proceed_calls s clock).1]
    exact there
  | _ => exact there

theorem Wired.withQueue {s : System} (wired : Wired s) {queue : InMemoryTaskQueue}
    (tasks : queue.tasks = s.engine.queue.tasks) : Wired (s.withQueue queue) where
  registered := wired.registered
  fresh := wired.fresh
  workers := wired.workers
  returned call c task found returned := by
    obtain ⟨id, known⟩ := wired.returned call c task found returned
    exact ⟨id, (congrArg (fun tasks => tasks.get? id) tasks).trans known⟩

theorem Wired.erase {s : System} (wired : Wired s) (call : ℕ) : Wired { s with calls := s.calls.erase call } := by
  have older : ∀ {other : ℕ} {c : ReserveCall}, (s.calls.erase call).get? other = some c → s.calls.get? other = some c := by
    intro other c found
    rw [Dict.get?_erase] at found
    split at found
    · cases found
    · exact found
  exact ⟨wired.registered, fun other c found => wired.fresh other c (older found),
    fun other c found => wired.workers other c (older found),
    fun other c task found => wired.returned other c task (older found)⟩

theorem Wired.set {s : System} (wired : Wired s) {call : ℕ} {c : ReserveCall} (there : s.calls.get? call = some c)
    {phase : ReservePhase}
    (known : ∀ task, phase = .returned (some task) → ∃ id, s.engine.queue.tasks.get? id = some task) :
    Wired { s with calls := s.calls.set call { c with phase } } := by
  refine ⟨wired.registered, fun other c' found => ?_, fun other c' found => ?_, fun other c' task found returned => ?_⟩
  all_goals
    change (s.calls.set call { c with phase }).get? other = some c' at found
    rw [Dict.get?_set] at found
    split at found
  · rename_i same
    rw [same]
    exact wired.fresh call c there
  · exact wired.fresh other c' found
  · obtain rfl := Option.some.inj found
    exact wired.workers call c there
  · exact wired.workers other c' found
  · obtain rfl := Option.some.inj found
    exact known task returned
  · exact wired.returned other c' task found returned

theorem Wired.conclude {s : System} (wired : Wired s) {call : ℕ} {c : ReserveCall} (there : s.calls.get? call = some c)
    {outcome : Except QueueError (Option TaskRef)} {queue : InMemoryTaskQueue}
    (tasks : queue.tasks = s.engine.queue.tasks)
    (known : ∀ task, outcome = .ok (some task) → ∃ id, s.engine.queue.tasks.get? id = some task) (deadline monotonic : ℚ) :
    Wired (s.conclude call c deadline monotonic (outcome, queue)) := by
  have sound := wired.withQueue tasks
  have named : ∀ {task}, (∃ id, s.engine.queue.tasks.get? id = some task) → ∃ id, queue.tasks.get? id = some task := by
    intro task given
    rw [tasks]
    exact given
  cases outcome with
  | error e => exact sound.erase call
  | ok taken =>
    cases taken with
    | none =>
      refine sound.set there fun task returned => named ?_
      split at returned
      · cases returned
      · exact wired.returned call c task there returned
    | some task =>
      refine sound.set there fun other returned => named ?_
      obtain rfl := Option.some.inj (ReservePhase.returned.inj returned)
      exact known task rfl

theorem conclude_engine (s : System) (call : ℕ) (c : ReserveCall) (deadline monotonic : ℚ)
    (outcome : Except QueueError (Option TaskRef) × InMemoryTaskQueue) :
    (s.conclude call c deadline monotonic outcome).engine = { s.engine with queue := outcome.2 } ∧
      (s.conclude call c deadline monotonic outcome).frame = s.frame := by
  obtain ⟨outcome, queue⟩ := outcome
  cases outcome with
  | error e => exact ⟨rfl, rfl⟩
  | ok taken => cases taken <;> exact ⟨rfl, rfl⟩

end System

namespace Passing

/-- What every reachable state has: the pass that holds the lock is that of a waiting call, and what its scan has taken
off a heap is filed there. -/
structure Sound (p : Passing) : Prop where
  represented : Represented p.system.engine.queue
  wired : p.system.Wired
  asked : ∀ pass, p.pass = some pass → p.system.calls.get? pass.call = some pass.asked
  spread : ∀ pass, p.pass = some pass → p.system.engine.queue.Spread pass.scan

theorem sound_init (config : Settings) : Sound (init config) := by
  refine ⟨represented_init _, System.wired_init config, ?_, ?_⟩
  · intro pass holds
    cases holds
  · intro pass holds
    cases holds

/-- What a slice does: it waits, begins a pass, takes a step of one, ends one, or is an event of the scheduler. -/
inductive Steps (p : Passing) : Slice → Passing → Prop where
  | stays {slice : Slice} : Steps p slice p
  | begins {call : ℕ} {now : ℚ} {pass : Pass} (free : p.pass = none)
      (waiting : p.system.calls.get? call = some pass.asked) (same : pass.call = call)
      (scan : pass.scan = .heaps (p.system.engine.workerObjects pass.worker).queues []) :
      Steps p (.begins call now)
        { system := p.system.withQueue (p.system.engine.queue.promoteDelayedLocked now), pass := some pass }
  | scans {pass : Pass} (holds : p.pass = some pass) : Steps p .scans (p.scan pass)
  | ends {pass : Pass} {candidates : List (ReadyEntry × String)} {now monotonic : ℚ} (holds : p.pass = some pass)
      (scanned : pass.scan = .heaps [] candidates) :
      Steps p (.ends now monotonic) (p.finish pass candidates now monotonic)
  | other {event : Event} (foreign : ∀ call clock monotonic, event ≠ .reservePass call clock monotonic)
      (unlocked : ∀ pass, p.pass = some pass → p.system.locks event = false) :
      Steps p (.other event) { p with system := p.system.step event }

theorem step_steps (p : Passing) (slice : Slice) : Steps p slice (p.step slice) := by
  cases slice with
  | begins call now =>
    simp only [step]
    split
    · rename_i worker timeout shared deadline free waiting
      exact .begins free waiting rfl rfl
    · exact .stays
  | scans =>
    simp only [step]
    split
    · exact .stays
    · rename_i pass holds
      exact .scans holds
  | ends now monotonic =>
    simp only [step]
    split
    · exact .stays
    · rename_i pass holds
      split
      · rename_i candidates scanned
        exact .ends holds scanned
      · exact .stays
  | other event =>
    simp only [step]
    split
    · exact .stays
    · rename_i free
      rw [Bool.not_eq_true] at free
      refine .other ?_ fun pass holds => ?_
      · rintro call clock monotonic rfl
        cases free
      · unfold waits at free
        split at free
        · cases free
        · rw [holds, Option.isSome_some, Bool.true_and] at free
          exact free

theorem step_sound {p : Passing} (sound : Sound p) (slice : Slice) : Sound (p.step slice) := by
  have steps := step_steps p slice
  obtain ⟨t, reached⟩ : ∃ t, t = p.step slice := ⟨_, rfl⟩
  rw [← reached] at steps ⊢
  cases steps with
  | stays => exact sound
  | @begins call now pass free waiting same scan =>
    obtain ⟨rep, settled⟩ := promote_settled sound.represented now
    refine ⟨rep, sound.wired.withQueue settled.tasks, fun other holds => ?_, fun other holds => ?_⟩
    · obtain rfl := Option.some.inj holds
      rw [same]
      exact waiting
    · obtain rfl := Option.some.inj holds
      rw [scan]
      trivial
  | @scans pass holds =>
    obtain ⟨outcome, ready, result, rep, kept⟩ := scanStep_spec sound.represented
      (p.system.engine.workerObjects pass.worker) (p.system.completedFor pass.shared) (sound.spread pass holds)
    have wired : (p.system.withQueue { p.system.engine.queue with ready }).Wired := sound.wired.withQueue rfl
    unfold scan
    dsimp only
    rw [result]
    cases outcome with
    | error e => exact ⟨rep, wired.erase pass.call, fun _ none => (by cases none), fun _ none => by cases none⟩
    | ok scan' =>
      refine ⟨rep, wired, fun other same => ?_, fun other same => ?_⟩
      · obtain rfl := Option.some.inj same
        exact sound.asked pass holds
      · obtain rfl := Option.some.inj same
        exact (kept scan' rfl).1
  | @ends pass candidates now monotonic holds scanned =>
    obtain ⟨outcome, ready, result, rep, known⟩ := takeBest_spec sound.represented candidates
    have named : ∀ task, outcome = .ok (some task) → ∃ id, p.system.engine.queue.tasks.get? id = some task := by
      intro task taken
      obtain ⟨item, _, found⟩ := known task taken
      exact ⟨_, found⟩
    obtain ⟨same, tasks, rep'⟩ := leaseTaken_spec rep named (p.system.engine.workerObjects pass.worker).workerId
      (now + p.system.engine.config.leaseSeconds)
    unfold finish
    rw [result]
    refine ⟨?_, ?_, fun _ none => (by cases none), fun _ none => by cases none⟩
    · rw [(System.conclude_engine ..).1]
      exact rep'
    · exact sound.wired.conclude (sound.asked pass holds) tasks (fun task taken => named task (same.symm.trans taken)) _ _
  | @other event foreign unlocked =>
    refine ⟨System.represented_step sound.represented event, System.step_wired sound.represented sound.wired event,
      fun pass holds => ?_, fun pass holds => ?_⟩
    · exact System.waiting_kept sound.wired foreign (sound.asked pass holds) rfl
    · show (p.system.step event).engine.queue.Spread pass.scan
      rw [System.unlocked_queue (unlocked pass holds)]
      exact sound.spread pass holds

theorem after_sound (config : Settings) (slices : List Slice) : Sound (after config slices) :=
  Machine.run_invariant (I := Sound) (fun _ slice sound => step_sound sound slice) (sound_init config) slices

end Passing

end TaskRunner
