import TaskRunner.Scheduler.Guarantees

/-!
Leases against the clock. A lease is as long as the settings say, whatever the task it is for, and no heartbeat
renews it.
-/

namespace TaskRunner
open Base InMemoryTaskQueue

/-- What the event reads from `time()`. -/
def Event.clock : Event → Option Clock
  | .registerWorker _ now | .heartbeat _ _ now | .queueSnapshot now => some fun _ => now
  | .submit _ clock | .submitBatch _ clock | .reservePass _ clock _ | .retryTask _ clock | .heartbeatReaper clock
  | .requeueExpired clock | .proceed clock => some clock
  | _ => none

/-- The first reading an event takes once it has its turn: `requeue_expired_leases` takes one more before it waits for
the lock of the queue. -/
def Event.entry : Event → Option ℚ
  | .requeueExpired clock => some (clock 1)
  | event => event.clock.map fun clock => clock 0

/-- The event begins before `limit` and gets its turn from `start` on, and its clock does not go back. Nothing is said
of the readings of two events: those of a thread and of the event loop may lie between each other. -/
structure Event.Within (start limit : ℚ) (event : Event) : Prop where
  forward : ∀ clock ∈ event.clock, Monotone clock
  begins : ∀ clock ∈ event.clock, clock 0 < limit
  enters : ∀ now ∈ event.entry, start ≤ now

theorem Event.Within.steady {start limit now : ℚ} {event : Event} (reads : event.clock = some fun _ => now)
    (entry : event.entry = some now) (begins : start ≤ now) (early : now < limit) : event.Within start limit := by
  refine ⟨fun clock read => ?_, fun clock read => ?_, fun time read => ?_⟩
  · obtain rfl := Option.some.inj (reads.symm.trans read)
    exact monotone_const
  · obtain rfl := Option.some.inj (reads.symm.trans read)
    exact early
  · obtain rfl := Option.some.inj (entry.symm.trans read)
    exact begins

/-- The worker reports the task, or somebody cancels or retries it. -/
def Event.ends (id workerId : String) : Event → Bool
  | .reportResult result => result.taskId = id ∧ result.workerId = workerId
  | .cancelTask taskId => taskId = id
  | .retryTask taskId _ => taskId = id
  | _ => false

/-! ### Leases that outlast a limit -/

/-- If the task is leased, it is until `limit` at least. -/
def Life.Secured (limit : ℚ) (l : Life) : Prop :=
  l.leased = true → ∀ deadline ∈ l.task.leaseDeadline, limit ≤ deadline

theorem Life.Secured.spared {limit now : ℚ} {l : Life} (secured : l.Secured limit) (early : now < limit) :
    ¬ l.Overdue now := by
  intro overdue
  obtain ⟨leased, deadline, due, late⟩ := overdue
  have after := secured leased deadline due
  exact absurd (lt_of_lt_of_le early after) (not_lt_of_gt late)

/-- A `reserve` leases until `limit` at least, and the lease reaper runs before it. -/
def Call.Within (limit : ℚ) : Call → Prop
  | .reserve _ _ leaseSeconds clock => limit ≤ clock 1 + leaseSeconds
  | .requeueExpiredLeases clock => clock 0 < limit
  | _ => True

/-- The call re-enters the task. -/
def Call.Retries (id : String) : Call → Prop
  | .retry taskId _ _ => taskId = id
  | _ => False

namespace InMemoryTaskQueue

theorem Effect.secured {q : InMemoryTaskQueue} {call : Call} {id : String} {l l' : Life} {limit : ℚ}
    (effect : Effect q call id l l') (within : call.Within limit) (secured : l.Secured limit) : l'.Secured limit := by
  cases effect.move with
  | settle settles =>
    unfold Life.Secured
    rw [settles.leased, settles.task]
    exact secured
  | dispatch made =>
    subst made
    intro _ deadline due
    obtain rfl := Option.some.inj due
    exact within
  | complete =>
    intro leased
    cases leased
  | retry =>
    intro leased
    rw [Life.retry_leased] at leased
    cases leased
  | cancel =>
    intro leased
    cases leased
  | expire =>
    intro leased
    rw [Life.retry_leased] at leased
    cases leased

theorem Effect.unplaced {q : InMemoryTaskQueue} {call : Call} {id : String} {l l' : Life} {limit : ℚ}
    (effect : Effect q call id l l') (within : call.Within limit) (secured : l.Secured limit)
    (other : ¬ call.Retries id) (none : l.waiting = 0) : l'.waiting = 0 := by
  cases effect.move with
  | settle settles =>
    have fewer := settles.waiting
    omega
  | dispatch _ _ _ settles positive =>
    have fewer := settles.waiting
    simp only [Life.waiting] at fewer none
    omega
  | complete => exact none
  | retry made =>
    subst made
    exact (other rfl).elim
  | cancel => exact none
  | expire made late =>
    subst made
    exact (secured.spared within late).elim

end InMemoryTaskQueue

namespace SchedulerEngine

/-- The worker is registered and not marked offline. -/
def Serving (e : SchedulerEngine) (workerId : String) : Prop := (e.reservable workerId).isSome = true

instance (e : SchedulerEngine) (workerId : String) : Decidable (e.Serving workerId) :=
  inferInstanceAs (Decidable (_ = _))

end SchedulerEngine

namespace System

theorem queueCall_within {s : System} {event : Event} {call : Call} {start limit : ℚ}
    (bound : limit ≤ start + s.engine.config.leaseSeconds) (within : event.Within start limit)
    (made : s.queueCall event = some call) : call.Within limit := by
  cases call with
  | reserve worker completed leaseSeconds clock =>
    obtain ⟨call, monotonic, _, _, _, rfl, _, _, _, _, rfl⟩ := queueCall_madeBy made
    have later : start ≤ clock 1 := (within.enters _ rfl).trans (within.forward clock rfl (Nat.zero_le 1))
    exact bound.trans (add_le_add later (le_refl _))
  | requeueExpiredLeases clock =>
    obtain rfl := queueCall_madeBy made
    exact within.begins clock rfl
  | _ => trivial

/-! ### Runs -/

/-- The task is known, and no lease of it ends before `limit`. -/
def Lasting (limit : ℚ) (id : String) (q : InMemoryTaskQueue) : Prop :=
  Represented q ∧ ∃ l, q.life id = some l ∧ l.Secured limit

theorem step_lasting {s : System} {event : Event} {start limit : ℚ} {id : String}
    (bound : limit ≤ start + s.engine.config.leaseSeconds) (within : event.Within start limit)
    (lasting : Lasting limit id s.engine.queue) : Lasting limit id (s.step event).engine.queue := by
  apply step_keeps (I := Lasting limit id) lasting
  intro call made
  obtain ⟨rep, l, alive, secured⟩ := lasting
  refine ⟨step_represented rep call, ?_⟩
  obtain ⟨l', after, same | ⟨_, effect⟩⟩ := step_life rep call alive
  · rw [← same] at secured
    exact ⟨l', after, secured⟩
  · exact ⟨l', after, effect.secured (queueCall_within bound within made) secured⟩

theorem requeue_spares {s : System} {limit : ℚ} {id : String} (lasting : Lasting limit id s.engine.queue)
    {clock : Clock} (early : clock 0 < limit) :
    (s.step (.requeueExpired clock)).engine.queue.life id = s.engine.queue.life id := by
  obtain ⟨rep, l, alive, secured⟩ := lasting
  have stepped := exec_stepped rep (.requeueExpiredLeases clock) trivial
  obtain ⟨l', after, effect⟩ := stepped.lives id l alive
  rw [step_queue]
  show (s.engine.queue.step (.requeueExpiredLeases clock)).life id = _
  rw [step_issued (show (Call.requeueExpiredLeases clock).Issued s.engine.queue from trivial), after, alive,
    effect.2 (secured.spared early)]

theorem requeue_takes {s : System} (rep : Represented s.engine.queue) {id workerId : String} {l : Life}
    (alive : s.engine.queue.life id = some l) {clock : Clock} (late : l.Overdue (clock 0)) :
    ¬ (s.step (.requeueExpired clock)).engine.queue.HeldBy id workerId := by
  have stepped := exec_stepped rep (.requeueExpiredLeases clock) trivial
  obtain ⟨l', after, effect⟩ := stepped.lives id l alive
  obtain ⟨k, rfl⟩ := effect.1 late
  rw [← step_issued (show (Call.requeueExpiredLeases clock).Issued s.engine.queue from trivial)] at after
  intro held
  have queue := step_queue s (.requeueExpired clock)
  rw [queue] at held
  have leased := ((heldBy_iff after).mp held).1
  rw [Life.retry_leased] at leased
  cases leased

theorem requeue_serving (s : System) (clock : Clock) (workerId : String) :
    (s.step (.requeueExpired clock)).engine.Serving workerId ↔ s.engine.Serving workerId := by
  simp only [step]
  split <;> exact Iff.rfl

/-- A pass that hands out a task leases it from its own reading of the clock. -/
theorem pass_leases {s : System} (rep : Represented s.engine.queue) {call : ℕ} {clock : Clock} {monotonic : ℚ}
    {id : String} (dispatched : s.dispatched (.reservePass call clock monotonic) = some id) :
    ∃ l, (s.step (.reservePass call clock monotonic)).engine.queue.life id = some l ∧
      l.leased = true ∧ l.task.leaseDeadline = some (clock 1 + s.engine.config.leaseSeconds) := by
  obtain ⟨made, issues, handed⟩ := Option.bind_eq_some_iff.mp dispatched
  obtain ⟨l, _, alive, _⟩ := handed_life rep handed
  rw [step_queue, queueStep, issues]
  cases made with
  | reserve worker completed leaseSeconds clock' =>
    obtain ⟨_, _, _, _, _, same, _, _, _, _, rfl⟩ := queueCall_madeBy issues
    cases same
    have issued : (Call.reserve worker completed s.engine.config.leaseSeconds clock).Issued s.engine.queue := trivial
    obtain ⟨l', after, effect⟩ := (exec_stepped rep _ issued).lives id l alive
    unfold Effect at effect
    dsimp only at effect
    rw [if_pos handed] at effect
    obtain ⟨_, m, _, _, rfl⟩ := effect
    rw [← step_issued issued] at after
    exact ⟨_, after, rfl, rfl⟩
  | _ => cases handed

/-- Nothing after `start` and before `limit` ends the execution: the worker serves all the while and has not reported
the task, and nobody cancels or retries it by hand. -/
structure Undisturbed (s : System) (id workerId : String) (start limit : ℚ) (events : List Event) : Prop where
  within : ∀ event ∈ events, event.Within start limit
  goesOn : ∀ event ∈ events, event.ends id workerId = false
  serving : Machine.Along step (fun s event => (s.step event).engine.Serving workerId) s events

/-- What the lease of a live worker is for: in every undisturbed run the lease reaper never takes the task from the
worker. -/
def KeepsLease (s : System) (id workerId : String) (start limit : ℚ) : Prop :=
  ∀ events, Undisturbed s id workerId start limit events →
    Machine.Along step (fun s event => ∀ clock, event = .requeueExpired clock →
      s.engine.queue.HeldBy id workerId → (s.step event).engine.queue.HeldBy id workerId) s events

/-- The event retries the task, by hand or for the report of a failure. -/
def Retries (s : System) (id : String) (event : Event) : Prop := ∃ made ∈ s.queueCall event, made.Retries id

/-- The worker keeps its lease and has the task to itself: in every undisturbed run in which no report retries the task
either, the lease reaper never takes it from the worker, and it is not dispatched a second time. -/
def KeepsTask (s : System) (id workerId : String) (start limit : ℚ) : Prop :=
  ∀ events, Undisturbed s id workerId start limit events →
    Machine.Along step (fun s event => ¬ s.Retries id event) s events →
    Machine.Along step (fun s event =>
      (∀ clock, event = .requeueExpired clock →
        s.engine.queue.HeldBy id workerId → (s.step event).engine.queue.HeldBy id workerId) ∧
      s.dispatched event ≠ some id) s events

theorem keepsLease_of_lasting {s : System} {id workerId : String} {start limit : ℚ}
    (bound : limit ≤ start + s.engine.config.leaseSeconds) (lasting : Lasting limit id s.engine.queue) :
    KeepsLease s id workerId start limit := by
  intro events undisturbed
  refine Machine.along_of_invariant
    (I := fun s : System => limit ≤ start + s.engine.config.leaseSeconds ∧ Lasting limit id s.engine.queue) ?_ ?_
    ⟨bound, lasting⟩ (Machine.along_of_forall undisturbed.within s)
  · intro s event given within
    obtain ⟨bound, lasting⟩ := given
    exact ⟨by rw [step_config]; exact bound, step_lasting bound within lasting⟩
  · rintro s event ⟨_, lasting⟩ within clock rfl held
    have same := requeue_spares lasting (within.begins clock rfl)
    obtain ⟨l, alive, _⟩ := held.alive lasting.1
    rw [alive] at same
    exact (heldBy_iff same).mpr ((heldBy_iff alive).mp held)

theorem unplaced_run {s : System} {id : String} {start limit : ℚ}
    (bound : limit ≤ start + s.engine.config.leaseSeconds)
    (idle : Represented s.engine.queue ∧ ∃ l, s.engine.queue.life id = some l ∧ l.Secured limit ∧ l.waiting = 0)
    {events : List Event} (within : ∀ event ∈ events, event.Within start limit)
    (unretried : Machine.Along step (fun s event => ¬ s.Retries id event) s events) :
    Machine.Along step (fun s event => s.dispatched event ≠ some id) s events := by
  let I : System → Prop := fun s => limit ≤ start + s.engine.config.leaseSeconds ∧ Represented s.engine.queue ∧
    ∃ l, s.engine.queue.life id = some l ∧ l.Secured limit ∧ l.waiting = 0
  refine Machine.along_of_invariant (I := I) ?_ ?_ ⟨bound, idle⟩
    ((Machine.along_of_forall within s).and unretried)
  · intro s event given also
    obtain ⟨bound, rep, l, alive, secured, none⟩ := given
    obtain ⟨within, other⟩ := also
    refine ⟨by rw [step_config]; exact bound, ?_⟩
    refine step_keeps (I := fun q => Represented q ∧
      ∃ l, q.life id = some l ∧ l.Secured limit ∧ l.waiting = 0) ⟨rep, l, alive, secured, none⟩ ?_
    intro call made
    refine ⟨step_represented rep call, ?_⟩
    obtain ⟨l', after, same | ⟨_, effect⟩⟩ := step_life rep call alive
    · rw [← same] at secured none
      exact ⟨l', after, secured, none⟩
    · have inside := queueCall_within bound within made
      have unretried : ¬ call.Retries id := fun retries => other ⟨call, made, retries⟩
      exact ⟨l', after, effect.secured inside secured, effect.unplaced inside secured unretried none⟩
  · intro s event given also dispatched
    obtain ⟨bound, rep, l, alive, secured, none⟩ := given
    obtain ⟨within, other⟩ := also
    obtain ⟨call, made, handed⟩ := Option.bind_eq_some_iff.mp dispatched
    obtain ⟨before, m, alive', settles, _, positive⟩ := handed_life rep handed
    obtain rfl : before = l := Option.some.inj (alive'.symm.trans alive)
    have fewer := settles.waiting
    rw [none] at fewer
    simp only [Life.waiting] at fewer
    omega

/-- A tick of the lease reaper between the end of a lease and a later limit disturbs nobody and takes the task away. -/
theorem lease_taken {s : System} (rep : Represented s.engine.queue) {id workerId : String} {l : Life}
    (alive : s.engine.queue.life id = some l) (leased : l.leased = true) {start deadline limit : ℚ}
    (due : l.task.leaseDeadline = some deadline) (begun : start ≤ deadline) (short : deadline < limit)
    (serving : s.engine.Serving workerId) :
    ∃ now, Undisturbed s id workerId start limit [.requeueExpired fun _ => now] ∧
      ¬ s.Retries id (.requeueExpired fun _ => now) ∧
      ¬ (s.step (.requeueExpired fun _ => now)).engine.queue.HeldBy id workerId := by
  obtain ⟨now, late, early⟩ := exists_between short
  refine ⟨now, ⟨?_, ?_, (requeue_serving _ _ _).mpr serving, trivial⟩, ?_, ?_⟩
  · intro event member
    rw [List.mem_singleton.mp member]
    exact .steady rfl rfl (begun.trans late.le) early
  · intro event member
    rw [List.mem_singleton.mp member]
    rfl
  · rintro ⟨made, issues, retries⟩
    cases issues
    exact retries
  · exact @requeue_takes s rep id workerId l alive (fun _ => now) ⟨leased, deadline, due, late⟩

/-- A leased task is kept until a limit exactly when the lease lasts as long. -/
theorem leased_kept {s : System} (rep : Represented s.engine.queue) {id workerId : String} {l : Life}
    (alive : s.engine.queue.life id = some l) (leased : l.leased = true) {start limit : ℚ}
    (due : l.task.leaseDeadline = some (start + s.engine.config.leaseSeconds)) (length : 0 ≤ s.engine.config.leaseSeconds)
    (held : s.engine.queue.HeldBy id workerId) (serving : s.engine.Serving workerId) :
    (KeepsLease s id workerId start limit ↔ limit ≤ start + s.engine.config.leaseSeconds) ∧
      (l.waiting = 0 → (KeepsTask s id workerId start limit ↔ limit ≤ start + s.engine.config.leaseSeconds)) := by
  have begun : start ≤ start + s.engine.config.leaseSeconds := le_add_of_nonneg_right length
  have secured : limit ≤ start + s.engine.config.leaseSeconds → l.Secured limit := by
    intro bound _ deadline ends
    rw [due, Option.mem_some_iff] at ends
    rw [← ends]
    exact bound
  have keeps : limit ≤ start + s.engine.config.leaseSeconds → KeepsLease s id workerId start limit := fun bound =>
    keepsLease_of_lasting bound ⟨rep, l, alive, secured bound⟩
  refine ⟨⟨fun kept => ?_, keeps⟩, fun none => ⟨fun kept => ?_, fun bound later undisturbed unretried => ?_⟩⟩
  · by_contra long
    obtain ⟨now, undisturbed, _, lost⟩ := lease_taken rep alive leased due begun (not_le.mp long) serving
    exact lost ((kept _ undisturbed).1 _ rfl held)
  · by_contra long
    obtain ⟨now, undisturbed, unretried, lost⟩ := lease_taken rep alive leased due begun (not_le.mp long) serving
    exact lost ((kept _ undisturbed ⟨unretried, trivial⟩).1.1 _ rfl held)
  · exact (keeps bound later undisturbed).and
      (unplaced_run bound ⟨rep, l, alive, secured bound, none⟩ undisturbed.within unretried)

/-- The lease of a dispatched task outlasts its timeout, on every run of a worker that keeps serving, exactly when
the timeout is no longer than a lease; and when the dispatch leaves no other entry of the task in a heap, this is just
what keeps the task from being dispatched again while its timeout runs. -/
theorem lease_kept_exactly (events : List Event) (call : ℕ) (clock : Clock) (monotonic : ℚ) (id workerId : String)
    (task : TaskEnvelope) (_named : (after {} events).engine.queue.task? id = some task)
    (dispatched : (after {} events).dispatched (.reservePass call clock monotonic) = some id)
    (held : ((after {} events).step (.reservePass call clock monotonic)).engine.queue.HeldBy id workerId)
    (serving : ((after {} events).step (.reservePass call clock monotonic)).engine.Serving workerId) :
    (KeepsLease ((after {} events).step (.reservePass call clock monotonic)) id workerId (clock 1)
        (clock 1 + task.spec.timeoutSeconds) ↔ task.spec.timeoutSeconds ≤ 30) ∧
      (((after {} events).step (.reservePass call clock monotonic)).engine.queue.waiting id = 0 →
        (KeepsTask ((after {} events).step (.reservePass call clock monotonic)) id workerId (clock 1)
          (clock 1 + task.spec.timeoutSeconds) ↔ task.spec.timeoutSeconds ≤ 30)) := by
  have rep := after_represented {} events
  obtain ⟨l, alive, leased, deadline⟩ := pass_leases rep dispatched
  have lease : ((after {} events).step (.reservePass call clock monotonic)).engine.config.leaseSeconds = 30 := by
    rw [step_config, after_config]
  have kept := @leased_kept _ (represented_step rep (.reservePass call clock monotonic)) id workerId l alive leased
    (clock 1) (clock 1 + task.spec.timeoutSeconds) (by rw [step_config]; exact deadline) (by rw [lease]; norm_num) held
    serving
  rw [lease, add_le_add_iff_left] at kept
  refine ⟨kept.1, fun none => kept.2 ?_⟩
  obtain ⟨ref, _, rfl⟩ := exists_of_life alive
  exact none

/-- A task of twenty seconds is dispatched to a worker. -/
def sampleQuick : List Event :=
  [.registerWorker (sampleWorker "w") 0,
    .submit { spec := { target := "jobs:run", timeoutSeconds := 20 }, taskId := "a", createdAt := 0, availableAt := 0 }
      (fun _ => 1), .proceed (fun _ => 1), .reserveTask "w" 1, .reserveEnters 0 1]

theorem lease_kept_sample :
    ∃ task, (after {} sampleQuick).engine.queue.task? "a" = some task ∧ task.spec.timeoutSeconds = 20 ∧
      KeepsTask ((after {} sampleQuick).step (.reservePass 0 (fun _ => 2) 1)) "a" "w" 2
        (2 + task.spec.timeoutSeconds) := by
  obtain ⟨task, known⟩ := exists_task (after {} sampleQuick).engine.queue "a" (by decide +kernel)
  have timeouts : ∀ t ∈ (after {} sampleQuick).engine.queue.task? "a", t.spec.timeoutSeconds = 20 := by
    decide +kernel
  have short := timeouts task known
  refine ⟨task, known, short, ?_⟩
  refine ((lease_kept_exactly sampleQuick 0 (fun _ => 2) 1 "a" "w" task known (by decide +kernel) (by decide +kernel)
    (by decide +kernel)).2 (by decide +kernel)).mpr ?_
  rw [short]
  decide +kernel

/-- The sample worker runs its task of sixty seconds and heartbeats all the while. -/
def sampleLong : List Event :=
  [.reserveReturns 0, .proceed (fun _ => 2), .heartbeat "w" 1 8, .heartbeatReaper (fun _ => 10), .heartbeat "w" 1 16,
    .heartbeatReaper (fun _ => 18), .heartbeat "w" 1 24, .heartbeatReaper (fun _ => 26), .heartbeat "w" 1 32,
    .heartbeatReaper (fun _ => 34), .heartbeat "w" 1 40]

theorem sampleLong_within : ∀ event ∈ sampleLong ++ [.requeueExpired (fun _ => 41)], event.Within 2 62 := by
  rw [sampleLong, List.cons_append, List.forall_mem_cons]
  refine ⟨⟨fun _ none => ?_, fun _ none => ?_, fun _ none => ?_⟩, ?_⟩
  · cases none
  · cases none
  · cases none
  · simp only [List.cons_append, List.nil_append, List.forall_mem_cons]
    repeat apply And.intro (Event.Within.steady rfl rfl (by norm_num) (by norm_num))
    exact List.forall_mem_nil _

/-- A task of twenty seconds that was retried by hand while it was queued, and so has an entry left when it is
dispatched. -/
def sampleStray : List Event :=
  [.registerWorker (sampleWorker "w") 0,
    .submit { spec := { target := "jobs:run", timeoutSeconds := 20, retryBackoffSeconds := 0 }, taskId := "a"
              createdAt := 0, availableAt := 0 } (fun _ => 1),
    .proceed (fun _ => 1), .retryTask "a" (fun _ => 1), .proceed (fun _ => 1), .reserveTask "w" 1, .reserveEnters 0 1]

/-- The lease of a task of sixty seconds runs out at 32 for all that, and another worker is handed the task while the
first may go on until 62. A task of twenty seconds with an entry left is handed out twice at once. -/
theorem lease_kept_fails :
    (((after {} (sampleDispatch.take 5)).engine.queue.task? "a").map (fun t => t.spec.timeoutSeconds) = some 60 ∧
      (after {} (sampleDispatch.take 5)).dispatched (.reservePass 0 (fun _ => 2) 1) = some "a" ∧
      ¬ KeepsLease ((after {} (sampleDispatch.take 5)).step (.reservePass 0 (fun _ => 2) 1)) "a" "w" 2 62 ∧
      (after {} (sampleDispatch.take 6 ++ sampleLong ++ [.requeueExpired (fun _ => 41),
        .registerWorker (sampleWorker "w2") 41, .reserveTask "w2" 1, .reserveEnters 1 42])).dispatched
          (.reservePass 1 (fun _ => 42) 42) = some "a") ∧
    (after {} sampleStray).dispatched (.reservePass 0 (fun _ => 2) 1) = some "a" ∧
      (after {} (sampleStray ++ [.reservePass 0 (fun _ => 2) 1, .registerWorker (sampleWorker "w2") 3,
        .reserveTask "w2" 1, .reserveEnters 1 3])).dispatched (.reservePass 1 (fun _ => 3) 3) = some "a" := by
  refine ⟨⟨by decide +kernel, by decide +kernel, ?_, by decide +kernel⟩, by decide +kernel, by decide +kernel⟩
  intro keeps
  have kept := keeps (sampleLong ++ [.requeueExpired (fun _ => 41)])
    ⟨sampleLong_within, by decide +kernel, by decide +kernel⟩
  have tick := ((Machine.along_append _ sampleLong _).mp kept).2.1 _ rfl (by decide +kernel)
  exact absurd tick (by decide +kernel)

end System

end TaskRunner
