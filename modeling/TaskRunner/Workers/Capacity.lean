import TaskRunner.Scheduler.Reservations
import TaskRunner.Workers.Runtime

/-!
A worker never holds more leases than it has consumers, although the scheduler does not count them. Each lease
of the worker is held by the consumer that has it on its hands: as the answer it waits for, as the task it
executes, or as the report the scheduler has not settled yet.
-/

namespace TaskRunner
open Base InMemoryTaskQueue

/-- Things held by `n` holders, at most one each, are `n` at most. -/
theorem length_le_of_holders {α : Type*} {n : ℕ} {xs : List α} (distinct : xs.Nodup) (holds : Fin n → Option α)
    (held : ∀ x ∈ xs, ∃ holder, holds holder = some x) : xs.length ≤ n := by
  have inside : xs.map some ⊆ (List.finRange n).map holds := by
    intro y member
    obtain ⟨x, there, rfl⟩ := List.mem_map.mp member
    obtain ⟨holder, same⟩ := held x there
    exact List.mem_map.mpr ⟨holder, List.mem_finRange holder, same⟩
  have nodup : (xs.map some).Nodup := distinct.map (Option.some_injective α)
  have bound := (List.subperm_of_subset nodup inside).length_le
  rw [List.length_map, List.length_map, List.length_finRange] at bound
  exact bound

theorem leases_length_le {q : InMemoryTaskQueue} (rep : Represented q) {workerId : String} {n : ℕ}
    (holds : Fin n → Option String) (held : ∀ id, q.HeldBy id workerId → ∃ holder, holds holder = some id) :
    (q.leases workerId).length ≤ n := by
  let mine : List (String × TaskRef) :=
    q.inflight.entries.filter fun lease => (q.objects lease.2).assignedWorker = some workerId
  have same : (q.leases workerId).length = (mine.map Prod.fst).length := by
    rw [leases, Dict.values, List.filter_map, List.length_map, List.length_map]
    rfl
  have distinct : (mine.map Prod.fst).Nodup := q.inflight.nodup.sublist (List.filter_sublist.map Prod.fst)
  rw [same]
  apply length_le_of_holders distinct holds
  intro id member
  obtain ⟨⟨_, task⟩, there, rfl⟩ := List.mem_map.mp member
  obtain ⟨there, assigned⟩ := List.mem_filter.mp there
  have leased := (q.inflight.mem_entries_iff _ task).mp there
  refine held _ ⟨Dict.mem_of_get? leased, ?_⟩
  rw [task?, rep.inflight _ task leased]
  exact of_decide_eq_true assigned

namespace System

theorem settled_unheld {s : System} (rep : Represented s.engine.queue) {result : TaskResult}
    (frame : s.frame = .settleReport result) (clock : Clock) (workerId : String) :
    ¬ (s.step (.proceed clock)).engine.queue.HeldBy result.taskId workerId := by
  have made : s.queueCall (.proceed clock) = some (reportCall result clock) := by
    simp only [queueCall, frame]
  rw [step_queue, queueStep, made]
  refine unheld_of_released rep ?_ (reportCall_issued _ result clock) workerId
  intro l l' effect
  unfold reportCall at effect
  split at effect
  · rw [show l' = _ from effect, if_pos rfl]
    rfl
  · split at effect
    · rw [show l' = _ from effect, if_pos rfl]
      rfl
    · rw [show l' = _ from effect, if_pos rfl]
      exact Life.retry_leased ..

theorem proceed_unsettled (s : System) (clock : Clock) (result : TaskResult) :
    (s.proceed clock).frame ≠ .settleReport result := by
  intro next
  unfold proceed at next
  split at next
  · rename_i frame
    rw [frame] at next
    cases next
  · cases next
  · cases next
  · dsimp only at next
    split at next <;> cases next
  · split at next
    · cases next
    · dsimp only at next
      split at next <;> cases next
  · cases next
  · cases next

end System

/-- The task a consumer has on its hands. -/
def Phase.holds (s : System) : Phase → Option String
  | .reserving call =>
    match s.calls.get? call with
    | some { phase := .returned (some task), .. } => some (s.engine.queue.objects task).taskId
    | _ => none
  | .returning taskId | .answered taskId => taskId
  | .executing taskId => some taskId
  | .reporting result => some result.taskId
  | .processing result =>
    match s.frame with
    | .settleReport _ => some result.taskId
    | _ => none
  | _ => none

theorem Phase.holds_returned {s : System} {call : ℕ} {c : ReserveCall} {task : TaskRef}
    (found : s.calls.get? call = some c) (returned : c.phase = .returned (some task)) :
    (Phase.reserving call).holds s = some (s.engine.queue.objects task).taskId := by
  obtain ⟨worker, timeout, phase⟩ := c
  subst returned
  simp only [holds, found]

theorem Phase.holds_reserving {s : System} {call : ℕ} {id : String}
    (holds : (Phase.reserving call).holds s = some id) :
    ∃ c task, s.calls.get? call = some c ∧ c.phase = .returned (some task) ∧
      (s.engine.queue.objects task).taskId = id := by
  unfold Phase.holds at holds
  dsimp only at holds
  split at holds
  · rename_i found
    exact ⟨_, _, found, rfl, Option.some.inj holds⟩
  · cases holds

/-- A consumer keeps the task it has on its hands over a step that leaves it leased to the worker. -/
theorem Phase.holds_step {s : System} (rep : Represented s.engine.queue) (wired : s.Wired) {phase : Phase} {id : String}
    (holds : phase.holds s = some id) {event : Event}
    (unanswered : ∀ call, phase = .reserving call → event ≠ .reserveReturns call)
    (processing : ∀ result settled, phase = .processing result → s.frame = .settleReport settled → settled = result)
    {workerId : String} (held : (s.step event).engine.queue.HeldBy id workerId) :
    phase.holds (s.step event) = some id := by
  cases phase with
  | reserving call =>
    obtain ⟨c, task, found, returned, named⟩ := holds_reserving holds
    have after := System.step_returned rep found returned (wired.fresh call c found) (unanswered call rfl)
    obtain ⟨other, known⟩ := wired.returned call c task found returned
    obtain rfl : other = id := (rep.named other task known).symm.trans named
    have named' := (System.represented_step rep event).named other task (System.step_found rep event known)
    rw [holds_returned after returned, named']
  | processing result =>
    unfold Phase.holds at holds ⊢
    dsimp only at holds ⊢
    split at holds
    · rename_i settled frame
      obtain rfl := processing result settled rfl frame
      rcases System.proceed_or_stays s event with ⟨clock, rfl⟩ | stays
      · obtain rfl := Option.some.inj holds
        exact (System.settled_unheld rep frame clock workerId held).elim
      · rcases stays.frame with same | ⟨free, _⟩
        · rw [same, frame]
          exact holds
        · rw [System.frame_of_idle free] at frame
          cases frame
    · cases holds
  | looping | requesting | reported => cases holds
  | returning | answered | executing | reporting => exact holds

namespace Cluster

variable {n : ℕ} {workerId : String} {k : Cluster n}

/-- Every call for the worker is one of its consumers', a report being processed is the one the event loop is
at, and every lease of the worker is held by a consumer. -/
structure Sound (workerId : String) (k : Cluster n) : Prop where
  represented : Represented k.system.engine.queue
  wired : System.Wired k.system
  owned : ∀ call c, k.system.calls.get? call = some c →
    (k.system.engine.workerObjects c.worker).workerId = workerId → ∃ consumer, k.phases consumer = .reserving call
  processing : ∀ consumer result settled, k.phases consumer = .processing result →
    k.system.frame = .settleReport settled → settled = result
  held : ∀ id, k.system.engine.queue.HeldBy id workerId → ∃ consumer, (k.phases consumer).holds k.system = some id

/-- No handler of a report is left when the event loop is free. -/
def Quiet (k : Cluster n) : Prop := ∀ consumer result, k.phases consumer = .processing result → k.system.idle = false

theorem sound_init (config : Settings) : Sound workerId (init config n) := by
  refine ⟨represented_init _, System.wired_init config, ?_, ?_, ?_⟩
  · intro call c found
    cases found
  · intro consumer result settled phase
    cases phase
  · intro id held
    cases held.1

/-- A call for the worker belongs to a consumer already, or `reserve_task` has just begun it. -/
theorem Sound.owned_step (sound : Sound workerId k) {event : Event} {call : ℕ} {c' : ReserveCall}
    (found : (k.system.step event).calls.get? call = some c')
    (named : ((k.system.step event).engine.workerObjects c'.worker).workerId = workerId) :
    (∃ consumer, k.phases consumer = .reserving call) ∨
      ∃ timeout, event = .reserveTask workerId timeout ∧ call = k.system.nextCall := by
  have registry := System.step_registry k.system event
  have older : ∀ c, k.system.calls.get? call = some c → c'.worker = c.worker →
      ∃ consumer, k.phases consumer = .reserving call := by
    intro c old same
    rw [same, registry.names _ (sound.wired.workers call c old)] at named
    exact sound.owned call c old named
  rcases System.step_call sound.represented found with old | ⟨other, timeout, rfl, new, _, reservable, _⟩ |
      ⟨c, old, same, _⟩
  · exact Or.inl (older c' old rfl)
  · obtain ⟨allocated, registered⟩ := sound.wired.registered other _ (System.reservable_registered reservable)
    rw [registry.names _ allocated] at named
    obtain rfl : other = workerId := registered.symm.trans named
    exact Or.inr ⟨timeout, rfl, new⟩
  · exact Or.inl (older c old same)

theorem Sound.represented_step (sound : Sound workerId k) (event : Event) :
    Represented (k.system.step event).engine.queue :=
  System.represented_step sound.represented event

/-- Whatever else goes on around the worker's consumers. -/
theorem Sound.environment (sound : Sound workerId k) (quiet : Quiet k) {event : Event}
    (alone : ∀ timeout, event ≠ .reserveTask workerId timeout)
    (unanswered : ∀ consumer call, k.phases consumer = .reserving call → event ≠ .reserveReturns call) :
    Sound workerId { k with system := k.system.step event } where
  represented := sound.represented_step event
  wired := System.step_wired sound.represented sound.wired event
  owned call c found named := by
    rcases sound.owned_step found named with owned | ⟨timeout, begins, _⟩
    · exact owned
    · exact (alone timeout begins).elim
  processing consumer result settled phase frame := by
    rcases System.proceed_or_stays k.system event with ⟨clock, rfl⟩ | stays
    · exact (System.proceed_unsettled k.system clock settled frame).elim
    · rcases stays.frame with same | ⟨free, _⟩
      · exact sound.processing consumer result settled phase (same.symm.trans frame)
      · rw [quiet consumer result phase] at free
        cases free
  held id held := by
    rcases System.step_heldBy sound.represented held with before | ⟨call, c, task, found, named, after, known⟩
    · obtain ⟨consumer, holds⟩ := sound.held id before
      exact ⟨consumer, Phase.holds_step sound.represented sound.wired holds (unanswered consumer)
        (fun result settled => sound.processing consumer result settled) held⟩
    · -- a pass of one of the consumers' calls
      obtain ⟨consumer, phase⟩ := sound.owned call c found named
      refine ⟨consumer, ?_⟩
      have rep := sound.represented_step event
      have kept := System.step_found sound.represented event known
      rw [phase, Phase.holds_returned after rfl, rep.named id task kept]

/-- One consumer moves, together with a step of the scheduler that leaves the queue alone. -/
theorem Sound.move (sound : Sound workerId k) {event : Event} (silent : k.system.queueCall event = none)
    {consumer : Fin n} {phase : Phase}
    (unanswered : ∀ other call, k.phases other = .reserving call → event = .reserveReturns call →
      k.phases consumer = .reserving call)
    (owned : ∀ call c, (k.system.step event).calls.get? call = some c →
      ((k.system.step event).engine.workerObjects c.worker).workerId = workerId →
      ∃ other, Function.update k.phases consumer phase other = .reserving call)
    (processing : ∀ other result settled, Function.update k.phases consumer phase other = .processing result →
      (k.system.step event).frame = .settleReport settled → settled = result)
    (carries : ∀ id, (k.phases consumer).holds k.system = some id → phase.holds (k.system.step event) = some id) :
    Sound workerId ({ k with system := k.system.step event }.place consumer phase) where
  represented := sound.represented_step event
  wired := System.step_wired sound.represented sound.wired event
  owned := owned
  processing := processing
  held id held := by
    have same : (k.system.step event).engine.queue = k.system.engine.queue := by
      rw [System.step_queue, System.queueStep, silent]
    have before : k.system.engine.queue.HeldBy id workerId := by
      rw [← same]
      exact held
    -- the holder is the consumer that moves, or one that stays where it is
    have mine : (k.phases consumer).holds k.system = some id →
        ∃ other, (Function.update k.phases consumer phase other).holds (k.system.step event) = some id := by
      intro holds
      refine ⟨consumer, ?_⟩
      rw [Function.update_self]
      exact carries id holds
    obtain ⟨other, holds⟩ := sound.held id before
    by_cases moved : other = consumer
    · rw [moved] at holds
      exact mine holds
    · by_cases answered : ∃ call, k.phases other = .reserving call ∧ event = .reserveReturns call
      · obtain ⟨call, waits, returns⟩ := answered
        rw [waits, ← unanswered other call waits returns] at holds
        exact mine holds
      · refine ⟨other, ?_⟩
        show (Function.update k.phases consumer phase other).holds _ = _
        rw [Function.update_of_ne moved]
        exact Phase.holds_step sound.represented sound.wired holds
          (fun call waits returns => answered ⟨call, waits, returns⟩)
          (fun result settled => sound.processing other result settled) held

theorem Sound.place (sound : Sound workerId k) {consumer : Fin n} {phase : Phase}
    (unreserved : ∀ call, k.phases consumer ≠ .reserving call) (unreported : ∀ result, phase ≠ .processing result)
    (carries : ∀ id, (k.phases consumer).holds k.system = some id → phase.holds k.system = some id) :
    Sound workerId (k.place consumer phase) where
  represented := sound.represented
  wired := sound.wired
  owned call c found named := by
    obtain ⟨other, waits⟩ := sound.owned call c found named
    refine ⟨other, ?_⟩
    have different : other ≠ consumer := by
      rintro rfl
      exact unreserved call waits
    show Function.update k.phases consumer phase other = _
    rw [Function.update_of_ne different]
    exact waits
  processing other result settled runs frame := by
    change Function.update k.phases consumer phase other = _ at runs
    by_cases moved : other = consumer
    · rw [moved, Function.update_self] at runs
      exact (unreported result runs).elim
    · rw [Function.update_of_ne moved] at runs
      exact sound.processing other result settled runs frame
  held id held := by
    obtain ⟨other, holds⟩ := sound.held id held
    refine ⟨other, ?_⟩
    show (Function.update k.phases consumer phase other).holds _ = _
    by_cases moved : other = consumer
    · rw [moved] at holds
      rw [moved, Function.update_self]
      exact carries id holds
    · rw [Function.update_of_ne moved]
      exact holds

theorem Sound.fail (sound : Sound workerId k) (consumer : Fin n) : Sound workerId (k.fail consumer) :=
  ⟨sound.represented, sound.wired, sound.owned, sound.processing, sound.held⟩

theorem Sound.proceed (sound : Sound workerId k) {consumer : Fin n} {phase : Phase}
    (unreserved : ∀ call, k.phases consumer ≠ .reserving call) (unreported : ∀ result, phase ≠ .processing result)
    (carries : ∀ id, (k.phases consumer).holds k.system = some id → phase.holds k.system = some id) :
    Sound workerId (k.proceed consumer phase) := by
  unfold Cluster.proceed
  split
  · exact sound.place unreserved unreported carries
  · exact sound

theorem Sound.conclude (sound : Sound workerId k) : Sound workerId k.conclude := by
  unfold Cluster.conclude
  split
  · rename_i free
    refine ⟨sound.represented, sound.wired, ?_, ?_, ?_⟩
    · intro call c found named
      obtain ⟨consumer, waits⟩ := sound.owned call c found named
      refine ⟨consumer, ?_⟩
      show (k.phases consumer).conclude = _
      rw [waits]
      rfl
    · intro consumer result settled _ frame
      cases (System.frame_of_idle free).symm.trans frame
    · intro id held
      obtain ⟨consumer, holds⟩ := sound.held id held
      refine ⟨consumer, ?_⟩
      show (k.phases consumer).conclude.holds k.system = some id
      cases phase : k.phases consumer with
      | processing result =>
        rw [phase] at holds
        unfold Phase.holds at holds
        dsimp only at holds
        split at holds
        · rename_i frame
          rw [System.frame_of_idle free] at frame
          cases frame
        · cases holds
      | _ =>
        rw [phase] at holds
        exact holds
  · exact sound

theorem conclude_quiet (k : Cluster n) : Quiet k.conclude := by
  unfold Cluster.conclude
  split
  · intro consumer result phase
    change (k.phases consumer).conclude = .processing result at phase
    cases before : k.phases consumer with
    | _ =>
      rw [before] at phase
      cases phase
  · rename_i busy
    intro consumer result _
    exact eq_false_of_ne_true busy

/-- While the event loop is free, no handler of a report is left but one that the move begins. -/
theorem Quiet.moved (quiet : Quiet k) (free : k.system.idle = true) {consumer other : Fin n} {phase : Phase}
    {result : TaskResult} (runs : Function.update k.phases consumer phase other = .processing result) :
    phase = .processing result := by
  by_cases moved : other = consumer
  · rw [moved, Function.update_self] at runs
    exact runs
  · rw [Function.update_of_ne moved] at runs
    have busy := quiet other result runs
    rw [free] at busy
    cases busy

theorem waits_moved {consumer other : Fin n} {call : ℕ} (phase : Phase) (waits : k.phases other = .reserving call)
    (elsewhere : k.phases consumer ≠ .reserving call) :
    Function.update k.phases consumer phase other = .reserving call := by
  have different : other ≠ consumer := by
    rintro rfl
    exact elsewhere waits
  rw [Function.update_of_ne different]
  exact waits

theorem Sound.arrive (sound : Sound workerId k) (quiet : Quiet k) (consumer : Fin n) :
    Sound workerId (k.arrive workerId consumer) := by
  unfold Cluster.arrive
  split
  · rename_i requesting
    have unreserved : ∀ call, k.phases consumer ≠ .reserving call := by
      simp [requesting]
    have empty : ∀ (phase : Phase) s id, (k.phases consumer).holds k.system = some id → phase.holds s = some id := by
      intro phase s id holds
      rw [requesting] at holds
      cases holds
    split
    · rename_i free
      split
      · exact sound.place unreserved (fun result same => by cases same) (empty _ _)
      · refine sound.move rfl (fun _ _ _ answers => by cases answers) ?_ ?_ (empty _ _)
        · intro call c found named
          rcases sound.owned_step found named with ⟨other, waits⟩ | ⟨_, _, new⟩
          · exact ⟨other, waits_moved _ waits (unreserved call)⟩
          · exact ⟨consumer, by rw [Function.update_self, new]⟩
        · intro other result settled runs _
          cases quiet.moved free runs
    · exact sound
  · exact sound

theorem answered_gone {s : System} (free : s.idle = true) {call : ℕ} {worker : WorkerRef} {timeout : ℚ}
    {task : Option TaskRef} (found : s.calls.get? call = some { worker, timeout, phase := .returned task }) :
    (s.step (.reserveReturns call)).calls.get? call = none := by
  cases task with
  | none =>
    simp only [System.step, System.whenIdle, free, if_true, found]
    exact Dict.get?_erase_self ..
  | some ref =>
    simp only [System.step, System.whenIdle, free, if_true, found]
    exact Dict.get?_erase_self ..

theorem Sound.respond (sound : Sound workerId k) (quiet : Quiet k) (consumer : Fin n) :
    Sound workerId (k.respond consumer) := by
  unfold Cluster.respond
  split
  · rename_i call waiting
    split
    · rename_i free
      split
      · rename_i worker timeout task found
        apply sound.move rfl
        · intro other call' _ answers
          obtain rfl : call = call' := Event.reserveReturns.inj answers
          exact waiting
        · intro call' c after named
          have elsewhere : k.phases consumer ≠ .reserving call' := by
            intro waits
            obtain rfl : call = call' := Phase.reserving.inj (waiting.symm.trans waits)
            rw [answered_gone free found] at after
            cases after
          rcases sound.owned_step after named with ⟨other, waits⟩ | ⟨_, begins, _⟩
          · exact ⟨other, waits_moved _ waits elsewhere⟩
          · cases begins
        · intro other result settled runs _
          cases quiet.moved free runs
        · intro id holds
          rw [waiting] at holds
          obtain ⟨c, ref, found', returned, named⟩ := Phase.holds_reserving holds
          obtain rfl := Option.some.inj (found.symm.trans found')
          obtain rfl := ReservePhase.returned.inj returned
          exact congrArg some named
      · exact sound
    · exact sound
  · exact sound

theorem Sound.deliver (sound : Sound workerId k) (quiet : Quiet k) (consumer : Fin n) :
    Sound workerId (k.deliver consumer) := by
  unfold Cluster.deliver
  split
  · rename_i result reporting
    have unreserved : ∀ call, k.phases consumer ≠ .reserving call := by
      simp [reporting]
    split
    · rename_i free
      split
      · exact sound.fail consumer
      · rename_i task known
        have begun : (k.system.step (.reportResult result)).frame = .settleReport result := by
          simp only [System.step, System.whenIdle, free, known, if_true]
        refine sound.move rfl (fun _ _ _ answers => by cases answers) ?_ ?_ ?_
        · intro call c after named
          rcases sound.owned_step after named with ⟨other, waits⟩ | ⟨_, begins, _⟩
          · exact ⟨other, waits_moved _ waits (unreserved call)⟩
          · cases begins
        · intro other delivered settled runs frame
          obtain rfl := Phase.processing.inj (quiet.moved free runs)
          exact (Frame.settleReport.inj (begun.symm.trans frame)).symm
        · intro id holds
          rw [reporting] at holds
          simp only [Phase.holds, begun]
          exact holds
    · exact sound
  · exact sound

theorem execute_taskId (taskId workerId : String) (outcome : Except String Json) (startedAt finishedAt : ℚ) :
    (execute taskId workerId outcome startedAt finishedAt).taskId = taskId := by
  cases outcome <;> rfl

theorem Sound.act (sound : Sound workerId k) (quiet : Quiet k) (event : ClusterEvent n)
    (alone : ∀ timeout, event ≠ .environment (.reserveTask workerId timeout)) : Sound workerId (k.act workerId event) := by
  cases event with
  | environment event =>
    have others : ∀ timeout, event ≠ .reserveTask workerId timeout := by
      intro timeout same
      exact alone timeout (congrArg ClusterEvent.environment same)
    cases event with
    | reserveReturns call =>
      simp only [Cluster.act]
      split
      · exact sound
      · rename_i unawaited
        apply sound.environment quiet others
        intro consumer call' waits answers
        obtain rfl : call = call' := Event.reserveReturns.inj answers
        refine unawaited ⟨consumer, ?_⟩
        rw [waits]
        exact decide_eq_true rfl
    | _ => exact sound.environment quiet others (fun _ _ _ answers => by cases answers)
  | request consumer =>
    simp only [Cluster.act]
    split
    · rename_i phase
      refine sound.proceed ?_ (fun result same => by cases same) ?_
      · simp [phase]
      · simp [phase, Phase.holds]
    · exact sound
  | arrive consumer => exact sound.arrive quiet consumer
  | respond consumer => exact sound.respond quiet consumer
  | receive consumer =>
    simp only [Cluster.act]
    split
    · rename_i phase
      refine sound.proceed ?_ (fun result same => by cases same) ?_
      · simp [phase]
      · simp [phase, Phase.holds]
    · rename_i taskId phase
      refine sound.proceed ?_ (fun result same => by cases same) ?_
      · simp [phase]
      · rw [phase]
        exact fun _ holds => holds
    · exact sound
  | finish consumer outcome startedAt finishedAt =>
    simp only [Cluster.act]
    split
    · rename_i taskId phase
      refine sound.proceed ?_ (fun result same => by cases same) ?_
      · simp [phase]
      · intro id holds
        rw [phase] at holds
        simp only [Phase.holds, execute_taskId]
        exact holds
    · exact sound
  | deliver consumer => exact sound.deliver quiet consumer
  | acknowledge consumer =>
    simp only [Cluster.act]
    split
    · rename_i phase
      refine sound.proceed ?_ (fun result same => by cases same) ?_
      · simp [phase]
      · simp [phase, Phase.holds]
    · exact sound
  | fail consumer => exact sound.fail consumer

theorem step_sound {event : ClusterEvent n} (sound : Sound workerId k ∧ Quiet k)
    (alone : ∀ timeout, event ≠ .environment (.reserveTask workerId timeout)) :
    Sound workerId (k.step workerId event) ∧ Quiet (k.step workerId event) :=
  ⟨(sound.1.act sound.2 event alone).conclude, conclude_quiet _⟩

/-- Whatever else goes on in the scheduler, a worker for which only its consumers reserve never has more leases
than consumers. -/
theorem capacity_respected (config : Settings) (workerId : String) (events : List (ClusterEvent n))
    (alone : ∀ event ∈ events, ∀ timeout, event ≠ .environment (.reserveTask workerId timeout)) :
    ((after config workerId events).system.engine.queue.leases workerId).length ≤ n := by
  have quiet : Quiet (init config n) := by
    intro consumer result phase
    cases phase
  have start : Sound workerId (init config n) ∧ Quiet (init config n) := ⟨sound_init config, quiet⟩
  have sound := Machine.run_invariant_along (I := fun k : Cluster n => Sound workerId k ∧ Quiet k)
    (fun k event sound alone => step_sound sound alone) start (Machine.along_of_forall alone _)
  exact leases_length_le sound.1.represented _ sound.1.held

/-- A worker of two consumers reserves with both; one of them executes the sample task. -/
def sampleCluster : List (ClusterEvent 2) :=
  [.environment (.registerWorker (sampleWorker "w") 0), .environment (.submit (sampleTask "a") fun _ => 1),
    .environment (.proceed fun _ => 1), .request 0, .request 1, .arrive 0, .arrive 1,
    .environment (.reserveEnters 0 1), .environment (.reserveEnters 1 1),
    .environment (.reservePass 1 (fun _ => 2) 1), .environment (.reservePass 0 (fun _ => 2) 1), .respond 1,
    .environment (.proceed fun _ => 2), .receive 1]

theorem capacity_respected_sample :
    ((after {} "w" sampleCluster).system.engine.queue.leases "w").length = 1 ∧
      ((after {} "w" sampleCluster).system.engine.queue.leases "w").length ≤ 2 := by
  refine ⟨by decide +kernel, capacity_respected {} "w" sampleCluster ?_⟩
  intro event member timeout same
  subst same
  simp [sampleCluster] at member

end Cluster

end TaskRunner
