import TaskRunner.Scheduler.Dispatches
import TaskRunner.Workers.Runtime

/-!
What a worker reports, traced back: each report is of an execution, each execution of an answer to `ReserveTask`, and
each answer of a dispatch. A consumer is an automaton over its phases, and the ledgers follow from its moves.
-/

namespace TaskRunner
open Base InMemoryTaskQueue

/-! ### The moves of a consumer -/

/-- A step of `_consume_loop`, of its requests or of their handlers. A call is answered only by an event that
responds. -/
inductive Phase.Moves (workerId : String) (responds : Prop) : Phase → Phase → Prop where
  | stays (phase : Phase) : Moves workerId responds phase phase
  | asks : Moves workerId responds .looping .requesting
  | refused : Moves workerId responds .requesting (.returning none)
  | waits (call : ℕ) : Moves workerId responds .requesting (.reserving call)
  | answered (call : ℕ) (taskId : Option String) (handled : responds) :
      Moves workerId responds (.reserving call) (.returning taskId)
  | nothing : Moves workerId responds (.answered none) .looping
  | begins (taskId : String) : Moves workerId responds (.answered (some taskId)) (.executing taskId)
  | finishes (taskId : String) (outcome : Except String Json) (startedAt finishedAt : ℚ) :
      Moves workerId responds (.executing taskId) (.reporting (execute taskId workerId outcome startedAt finishedAt))
  | delivers (result : TaskResult) : Moves workerId responds (.reporting result) (.processing result)
  | acknowledged : Moves workerId responds .reported .looping

/-- The task a call is answered with. -/
def Phase.answers : Phase → Phase → List String
  | .reserving _, .returning (some taskId) => [taskId]
  | _, _ => []

/-- The result an execution comes to. -/
def Phase.executions : Phase → Phase → List TaskResult
  | .executing _, .reporting result => [result]
  | _, _ => []

/-- The report the scheduler takes. -/
def Phase.reports : Phase → Phase → List TaskResult
  | .reporting result, .processing _ => [result]
  | _, _ => []

/-- The task of an answer that has not been executed yet. -/
def Phase.carried : Phase → List String
  | .returning (some taskId) | .answered (some taskId) | .executing taskId => [taskId]
  | _ => []

/-- The result of an execution that has not been taken by the scheduler yet. -/
def Phase.sending : Phase → List TaskResult
  | .reporting result => [result]
  | _ => []

section Moves

variable {workerId : String} {responds : Prop} {p p' : Phase}

/-- A move carries on what came in, or has executed it. -/
theorem Phase.Moves.carried (moves : p.Moves workerId responds p') :
    (p.carried ++ p.answers p').Perm ((p.executions p').map TaskResult.taskId ++ p'.carried) := by
  cases moves with
  | stays =>
    have none : p.answers p = [] ∧ p.executions p = [] := by
      cases p with
      | _ => exact ⟨rfl, rfl⟩
    rw [none.1, none.2, List.append_nil, List.map_nil, List.nil_append]
  | answered call taskId => cases taskId <;> rfl
  | finishes taskId outcome => cases outcome <;> rfl
  | _ => rfl

theorem Phase.Moves.sending (moves : p.Moves workerId responds p') :
    (p.sending ++ p.executions p').Perm (p.reports p' ++ p'.sending) := by
  cases moves with
  | stays =>
    have none : p.executions p = [] ∧ p.reports p = [] := by
      cases p with
      | _ => exact ⟨rfl, rfl⟩
    rw [none.1, none.2, List.append_nil, List.nil_append]
  | answered call taskId => cases taskId <;> rfl
  | _ => rfl

theorem Phase.Moves.executed (moves : p.Moves workerId responds p') {result : TaskResult}
    (executed : result ∈ p.executions p') :
    ∃ taskId outcome startedAt finishedAt, result = execute taskId workerId outcome startedAt finishedAt := by
  cases moves with
  | stays => cases p <;> cases executed
  | answered call taskId => cases taskId <;> cases executed
  | finishes taskId outcome startedAt finishedAt =>
    rw [List.mem_singleton.mp executed]
    exact ⟨taskId, outcome, startedAt, finishedAt, rfl⟩
  | _ => cases executed

theorem Phase.Moves.unanswered (moves : p.Moves workerId responds p') (other : ¬ responds) : p.answers p' = [] := by
  cases moves with
  | stays => cases p <;> rfl
  | answered call taskId handled => exact (other handled).elim
  | _ => rfl

end Moves

/-- The scheduler's handlers hand nothing over when they are done. -/
theorem Phase.carried_conclude (phase : Phase) : phase.conclude.carried = phase.carried := by
  cases phase with
  | returning taskId => cases taskId <;> rfl
  | _ => rfl

theorem Phase.sending_conclude (phase : Phase) : phase.conclude.sending = phase.sending := by
  cases phase with
  | _ => rfl

/-! ### What a step of a worker can be -/

namespace Cluster

variable {n : ℕ} {workerId : String}

/-- What a step makes the scheduler do. -/
def systemEvents (workerId : String) (k : Cluster n) : ClusterEvent n → List Event
  | .environment (.reserveReturns call) =>
    if ∃ consumer, (k.phases consumer).awaits call then [] else [.reserveReturns call]
  | .environment event => [event]
  | .arrive consumer =>
    match k.phases consumer, k.system.engine.reservable workerId with
    | .requesting, some _ => if k.system.idle then [.reserveTask workerId 1] else []
    | _, _ => []
  | .respond consumer =>
    match k.phases consumer with
    | .reserving call =>
      match k.system.calls.get? call with
      | some { phase := .returned _, .. } => if k.system.idle then [.reserveReturns call] else []
      | _ => []
    | _ => []
  | .deliver consumer =>
    match k.phases consumer with
    | .reporting result =>
      match k.system.engine.queue.get result.taskId with
      | .ok _ => if k.system.idle then [.reportResult result] else []
      | .error _ => []
    | _ => []
  | _ => []

/-- What a step of the worker does and makes the scheduler do. It leaves both as they are where the event is not due. -/
inductive Acts (workerId : String) (k : Cluster n) : ClusterEvent n → List Event → Cluster n → Prop where
  | stays (event : ClusterEvent n) : Acts workerId k event [] k
  | environment (event : Event) :
      Acts workerId k (.environment event) [event] { k with system := k.system.step event }
  | proceeds {event : ClusterEvent n} {consumer : Fin n} {phase : Phase}
      (moves : ∀ responds : Prop, (k.phases consumer).Moves workerId responds phase)
      (unreserved : ∀ call, phase ≠ .reserving call) : Acts workerId k event [] (k.place consumer phase)
  | reserves {consumer : Fin n} {worker : WorkerRef} (requesting : k.phases consumer = .requesting)
      (free : k.system.idle = true) (reservable : k.system.engine.reservable workerId = some worker) :
      Acts workerId k (.arrive consumer) [.reserveTask workerId 1]
        ({ k with system := k.system.step (.reserveTask workerId 1) }.place consumer (.reserving k.system.nextCall))
  | responds {consumer : Fin n} {call : ℕ} {worker : WorkerRef} {timeout : ℚ} {task : Option TaskRef}
      (waiting : k.phases consumer = .reserving call) (free : k.system.idle = true)
      (found : k.system.calls.get? call = some { worker, timeout, phase := .returned task }) :
      Acts workerId k (.respond consumer) [.reserveReturns call]
        ({ k with system := k.system.step (.reserveReturns call) }.place consumer
          (.returning (task.map fun ref => (k.system.engine.queue.objects ref).taskId)))
  | delivers {consumer : Fin n} {result : TaskResult} (sending : k.phases consumer = .reporting result) :
      Acts workerId k (.deliver consumer) [.reportResult result]
        ({ k with system := k.system.step (.reportResult result) }.place consumer (.processing result))
  | fails {event : ClusterEvent n} (consumer : Fin n) : Acts workerId k event [] (k.fail consumer)

theorem acts_proceed {k : Cluster n} {event : ClusterEvent n} {consumer : Fin n} {phase : Phase}
    (moves : ∀ responds : Prop, (k.phases consumer).Moves workerId responds phase)
    (unreserved : ∀ call, phase ≠ .reserving call) : Acts workerId k event [] (k.proceed consumer phase) := by
  unfold Cluster.proceed
  split
  · exact .proceeds moves unreserved
  · exact .stays event

theorem act_acts (k : Cluster n) (event : ClusterEvent n) :
    Acts workerId k event (k.systemEvents workerId event) (k.act workerId event) := by
  cases event with
  | environment event =>
    cases event with
    | reserveReturns call =>
      simp only [act, systemEvents]
      split
      · exact .stays _
      · exact .environment _
    | _ => exact .environment _
  | request consumer =>
    simp only [act, systemEvents]
    split
    · rename_i phase
      exact acts_proceed (fun _ => phase ▸ .asks) fun call same => by cases same
    · exact .stays _
  | arrive consumer =>
    simp only [act, arrive, systemEvents]
    cases phase : k.phases consumer with
    | requesting =>
      by_cases free : k.system.idle = true
      · cases reservable : k.system.engine.reservable workerId with
        | none =>
          simp only [if_pos free]
          exact .proceeds (fun _ => phase ▸ .refused) fun call same => by cases same
        | some worker =>
          simp only [if_pos free]
          exact .reserves phase free reservable
      · cases k.system.engine.reservable workerId with
        | none =>
          simp only [if_neg free]
          exact .stays _
        | some worker =>
          simp only [if_neg free]
          exact .stays _
    | _ => exact .stays _
  | respond consumer =>
    simp only [act, respond, systemEvents]
    cases phase : k.phases consumer with
    | reserving call =>
      by_cases free : k.system.idle = true
      · simp only [if_pos free]
        cases found : k.system.calls.get? call with
        | none => exact .stays _
        | some c =>
          obtain ⟨worker, timeout, reached⟩ := c
          cases reached with
          | returned task => exact .responds phase free found
          | _ => exact .stays _
      · simp only [if_neg free]
        split <;> exact .stays _
    | _ => exact .stays _
  | receive consumer =>
    simp only [act, systemEvents]
    split
    · rename_i phase
      exact acts_proceed (fun _ => phase ▸ .nothing) fun call same => by cases same
    · rename_i taskId phase
      exact acts_proceed (fun _ => phase ▸ .begins taskId) fun call same => by cases same
    · exact .stays _
  | finish consumer outcome startedAt finishedAt =>
    simp only [act, systemEvents]
    split
    · rename_i taskId phase
      exact acts_proceed (fun _ => phase ▸ .finishes taskId outcome startedAt finishedAt) fun call same => by cases same
    · exact .stays _
  | deliver consumer =>
    simp only [act, deliver, systemEvents]
    cases phase : k.phases consumer with
    | reporting result =>
      by_cases free : k.system.idle = true
      · simp only [if_pos free]
        cases k.system.engine.queue.get result.taskId with
        | error error => exact .fails consumer
        | ok task => exact .delivers phase
      · simp only [if_neg free]
        split <;> exact .stays _
    | _ => exact .stays _
  | acknowledge consumer =>
    simp only [act, systemEvents]
    split
    · rename_i phase
      exact acts_proceed (fun _ => phase ▸ .acknowledged) fun call same => by cases same
    · exact .stays _
  | fail consumer => exact .fails consumer

theorem Acts.system {k k' : Cluster n} {event : ClusterEvent n} {calls : List Event}
    (acts : Acts workerId k event calls k') : k'.system = Machine.run System.step k.system calls := by
  cases acts with
  | _ => rfl

theorem conclude_system (k : Cluster n) : k.conclude.system = k.system := by
  unfold Cluster.conclude
  split <;> rfl

/-- What a run of the worker makes the scheduler do. -/
def eventsOf (config : Settings) (workerId : String) (events : List (ClusterEvent n)) : List Event :=
  Machine.collect (step workerId) (systemEvents workerId) (init config n) events

theorem step_system (k : Cluster n) (event : ClusterEvent n) :
    (k.step workerId event).system = Machine.run System.step k.system (k.systemEvents workerId event) := by
  rw [step, conclude_system]
  exact (k.act_acts event).system

theorem after_system (config : Settings) (workerId : String) (events : List (ClusterEvent n)) :
    (after config workerId events).system = System.after config (eventsOf config workerId events) :=
  Machine.run_simulates (a := Cluster.system) step_system (init config n) events

/-! ### The moves of all consumers -/

/-- One consumer moves, the others stay. -/
theorem moves_place {k k' : Cluster n} {consumer : Fin n} {phase : Phase} {P : Fin n → Prop}
    (moves : (k.phases consumer).Moves workerId (P consumer) phase)
    (same : k'.phases = Function.update k.phases consumer phase) (other : Fin n) :
    (k.phases other).Moves workerId (P other) (k'.phases other) := by
  rw [same]
  by_cases moved : other = consumer
  · subst moved
    rw [Function.update_self]
    exact moves
  · rw [Function.update_of_ne moved]
    exact .stays _

theorem Acts.moves {k k' : Cluster n} {event : ClusterEvent n} {calls : List Event}
    (acts : Acts workerId k event calls k') (other : Fin n) :
    (k.phases other).Moves workerId (event = .respond other) (k'.phases other) := by
  cases acts with
  | stays | environment | fails => exact .stays _
  | proceeds moves => exact moves_place (P := fun c => event = .respond c) (moves _) rfl other
  | @reserves consumer worker requesting =>
    exact moves_place (P := fun c => ClusterEvent.arrive consumer = .respond c) (requesting ▸ .waits _) rfl other
  | @responds consumer call worker timeout task waiting =>
    exact moves_place (P := fun c => ClusterEvent.respond consumer = .respond c) (waiting ▸ .answered call _ rfl) rfl
      other
  | @delivers consumer result sending =>
    exact moves_place (P := fun c => ClusterEvent.deliver consumer = .respond c) (sending ▸ .delivers result) rfl other

theorem moves_act (k : Cluster n) (event : ClusterEvent n) (other : Fin n) :
    (k.phases other).Moves workerId (event = .respond other) ((k.act workerId event).phases other) :=
  (k.act_acts event).moves other

/-! ### The ledgers of a worker -/

variable {α : Type*}

/-- What the consumers have, each of it at some phase. -/
def having (f : Phase → List α) (k : Cluster n) : List α :=
  (List.finRange n).flatMap fun consumer => f (k.phases consumer)

/-- What the consumers pass on in a step. -/
def passing (f : Phase → Phase → List α) (workerId : String) (k : Cluster n) (event : ClusterEvent n) : List α :=
  (List.finRange n).flatMap fun consumer => f (k.phases consumer) ((k.act workerId event).phases consumer)

/-- The tasks the calls of a run are answered with. -/
def answersOf (config : Settings) (workerId : String) (events : List (ClusterEvent n)) : List String :=
  Machine.collect (step workerId) (passing Phase.answers workerId) (init config n) events

/-- The results the executions of a run come to. -/
def executionsOf (config : Settings) (workerId : String) (events : List (ClusterEvent n)) : List TaskResult :=
  Machine.collect (step workerId) (passing Phase.executions workerId) (init config n) events

/-- The reports the scheduler takes in a run. -/
def reportsOf (config : Settings) (workerId : String) (events : List (ClusterEvent n)) : List TaskResult :=
  Machine.collect (step workerId) (passing Phase.reports workerId) (init config n) events

theorem having_conclude {f : Phase → List α} (concludes : ∀ phase, f phase.conclude = f phase) (k : Cluster n) :
    having f k.conclude = having f k := by
  unfold Cluster.conclude
  split
  · exact List.flatMap_congr fun consumer _ => concludes (k.phases consumer)
  · rfl

/-- What every move conserves, a step of the worker conserves. -/
theorem step_conserves {held : Phase → List α} {ins outs : Phase → Phase → List α}
    (concludes : ∀ phase, held phase.conclude = held phase)
    (conserves : ∀ {responds : Prop} {p p' : Phase}, p.Moves workerId responds p' →
      (held p ++ ins p p').Perm (outs p p' ++ held p')) (k : Cluster n) (event : ClusterEvent n) :
    (having held k ++ passing ins workerId k event).Perm
      (passing outs workerId k event ++ having held (k.step workerId event)) := by
  rw [step, having_conclude concludes]
  have before := List.flatMap_append_perm (List.finRange n) (fun consumer => held (k.phases consumer))
    fun consumer => ins (k.phases consumer) ((k.act workerId event).phases consumer)
  have after := List.flatMap_append_perm (List.finRange n)
    (fun consumer => outs (k.phases consumer) ((k.act workerId event).phases consumer))
    fun consumer => held ((k.act workerId event).phases consumer)
  have each := List.Perm.flatMap_left (List.finRange n) fun consumer _ => conserves (k.moves_act event consumer)
  exact before.trans (each.trans after.symm)

/-- The same for a run. -/
theorem after_conserves {held : Phase → List α} {ins outs : Phase → Phase → List α} (looping : held .looping = [])
    (concludes : ∀ phase, held phase.conclude = held phase)
    (conserves : ∀ {responds : Prop} {p p' : Phase}, p.Moves workerId responds p' →
      (held p ++ ins p p').Perm (outs p p' ++ held p')) (config : Settings) (events : List (ClusterEvent n)) :
    (Machine.collect (step workerId) (passing ins workerId) (init config n) events).Perm
      (Machine.collect (step workerId) (passing outs workerId) (init config n) events ++
        having held (after config workerId events)) := by
  have each : ∀ (k : Cluster n) event, True → (having held k ++ passing ins workerId k event).Perm
      (passing outs workerId k event ++ having held (k.step workerId event)) :=
    fun k event _ => step_conserves concludes conserves k event
  have ledger :=
    Machine.run_conserves_perm (I := fun _ => True) (fun _ _ _ => trivial) each (s := init config n) trivial events
  have empty : having held (init config n) = [] := List.flatMap_eq_nil_iff.mpr fun _ _ => looping
  rw [empty, List.nil_append] at ledger
  exact ledger

/-- Each answer is executed, or a consumer still has it. -/
theorem answers_executed (config : Settings) (workerId : String) (events : List (ClusterEvent n)) :
    (answersOf config workerId events).Perm
      ((executionsOf config workerId events).map TaskResult.taskId ++
        having Phase.carried (after config workerId events)) := by
  have named : Machine.collect (step workerId)
      (passing (fun p p' => (p.executions p').map TaskResult.taskId) workerId) (init config n) events =
        (executionsOf config workerId events).map TaskResult.taskId := by
    rw [executionsOf, ← List.filterMap_eq_map, Machine.collect_filterMap]
    simp only [List.filterMap_eq_map, passing, List.map_flatMap]
    rfl
  rw [← named]
  exact after_conserves rfl Phase.carried_conclude Phase.Moves.carried config events

/-- Each result is taken by the scheduler, or a consumer still has it. -/
theorem executions_reported (config : Settings) (workerId : String) (events : List (ClusterEvent n)) :
    (executionsOf config workerId events).Perm
      (reportsOf config workerId events ++ having Phase.sending (after config workerId events)) :=
  after_conserves rfl Phase.sending_conclude Phase.Moves.sending config events

/-- Each result is that of an execution by this worker. -/
theorem executionsOf_execute {config : Settings} {events : List (ClusterEvent n)} {result : TaskResult}
    (executed : result ∈ executionsOf config workerId events) :
    ∃ taskId outcome startedAt finishedAt, result = execute taskId workerId outcome startedAt finishedAt := by
  obtain ⟨k, event, _, there⟩ := Machine.mem_collect executed
  obtain ⟨consumer, _, here⟩ := List.mem_flatMap.mp there
  exact (k.moves_act event consumer).executed here

/-! ### The calls of the consumers -/

/-- The calls the consumers wait for are calls for their worker. -/
structure Employed (workerId : String) (k : Cluster n) : Prop where
  consistent : System.Consistent k.system
  begun : ∀ consumer call, k.phases consumer = .reserving call → call < k.system.nextCall
  named : ∀ consumer call c, k.phases consumer = .reserving call → k.system.calls.get? call = some c →
    (k.system.engine.workerObjects c.worker).workerId = workerId

variable {k : Cluster n}

theorem employed_init (config : Settings) : Employed workerId (init config n) := by
  refine ⟨System.consistent_init config, ?_, ?_⟩
  · intro consumer call phase
    cases phase
  · intro consumer call c phase
    cases phase

theorem Employed.move (employed : Employed workerId k) (event : Event) :
    Employed workerId { k with system := k.system.step event } where
  consistent := System.step_consistent employed.consistent event
  begun consumer call phase :=
    Nat.lt_of_lt_of_le (employed.begun consumer call phase) (System.step_nextCall employed.consistent.represented event)
  named consumer call c' phase found := by
    have wired := employed.consistent.wired
    have registry := System.step_registry k.system event
    have older : ∀ c, k.system.calls.get? call = some c → c'.worker = c.worker →
        ((k.system.step event).engine.workerObjects c'.worker).workerId = workerId := by
      intro c old same
      rw [same, registry.names _ (wired.workers call c old)]
      exact employed.named consumer call c phase old
    rcases System.step_call employed.consistent.represented found with old | ⟨_, _, _, new, _⟩ | ⟨c, old, same, _⟩
    · exact older c' old rfl
    · exact (Nat.ne_of_lt (employed.begun consumer call phase) new).elim
    · exact older c old same

theorem Employed.place (employed : Employed workerId k) (consumer : Fin n) {phase : Phase}
    (reserving : ∀ call, phase = .reserving call → call < k.system.nextCall ∧
      ∀ c, k.system.calls.get? call = some c → (k.system.engine.workerObjects c.worker).workerId = workerId) :
    Employed workerId (k.place consumer phase) := by
  have each : ∀ other call, (k.place consumer phase).phases other = .reserving call →
      phase = .reserving call ∨ k.phases other = .reserving call := by
    intro other call there
    change Function.update k.phases consumer phase other = _ at there
    by_cases moved : other = consumer
    · rw [moved, Function.update_self] at there
      exact Or.inl there
    · rw [Function.update_of_ne moved] at there
      exact Or.inr there
  refine ⟨employed.consistent, ?_, ?_⟩
  · intro other call there
    rcases each other call there with here | there
    · exact (reserving call here).1
    · exact employed.begun other call there
  · intro other call c there found
    rcases each other call there with here | there
    · exact (reserving call here).2 c found
    · exact employed.named other call c there found

/-- A call that begins is one for the worker. -/
theorem Employed.reserves (employed : Employed workerId k) (consumer : Fin n) (free : k.system.idle = true)
    {worker : WorkerRef} (reservable : k.system.engine.reservable workerId = some worker) :
    Employed workerId
      ({ k with system := k.system.step (.reserveTask workerId 1) }.place consumer (.reserving k.system.nextCall)) := by
  refine (employed.move _).place consumer ?_
  rintro call same
  obtain rfl := Phase.reserving.inj same
  have registered := System.reservable_registered reservable
  obtain ⟨_, named⟩ := employed.consistent.wired.registered workerId worker registered
  simp only [System.step, System.whenIdle, free, if_true, reservable]
  refine ⟨Nat.lt_succ_self _, fun c found => ?_⟩
  rw [Dict.get?_set_self] at found
  obtain rfl := Option.some.inj found
  exact named

theorem Employed.acts (employed : Employed workerId k) {k' : Cluster n} {event : ClusterEvent n} {calls : List Event}
    (acts : Acts workerId k event calls k') : Employed workerId k' := by
  cases acts with
  | stays => exact employed
  | environment event => exact employed.move event
  | proceeds moves unreserved => exact employed.place _ fun call same => (unreserved call same).elim
  | reserves requesting free reservable => exact employed.reserves _ free reservable
  | responds | delivers => exact (employed.move _).place _ fun call same => by cases same
  | fails consumer => exact ⟨employed.consistent, employed.begun, employed.named⟩

theorem Employed.step (employed : Employed workerId k) (event : ClusterEvent n) :
    Employed workerId (k.step workerId event) := by
  have done := employed.acts (k.act_acts event)
  have kept : ∀ {phase : Phase} {call : ℕ}, phase.conclude = .reserving call → phase = .reserving call := by
    intro phase call same
    cases phase with
    | reserving other => exact same
    | _ => cases same
  unfold Cluster.step Cluster.conclude
  split
  · exact ⟨done.consistent, fun consumer call there => done.begun consumer call (kept there),
      fun consumer call c there => done.named consumer call c (kept there)⟩
  · exact done

/-- What one consumer alone passes on is all that is. -/
theorem passing_alone {f : Phase → Phase → List α} {event : ClusterEvent n} (consumer : Fin n)
    (others : ∀ other ≠ consumer, f (k.phases other) ((k.act workerId event).phases other) = []) :
    passing f workerId k event = f (k.phases consumer) ((k.act workerId event).phases consumer) := by
  obtain ⟨before, later, parts⟩ := List.append_of_mem (List.mem_finRange consumer)
  have distinct := List.nodup_finRange n
  rw [parts, List.nodup_middle, List.nodup_cons, List.mem_append, not_or] at distinct
  obtain ⟨⟨unbefore, unlater⟩, _⟩ := distinct
  rw [passing, parts, List.flatMap_append, List.flatMap_cons,
    List.flatMap_eq_nil_iff.mpr fun other member => others other fun same => unbefore (same ▸ member),
    List.flatMap_eq_nil_iff.mpr fun other member => others other fun same => unlater (same ▸ member),
    List.nil_append, List.append_nil]

/-- A consumer's call is answered with a dispatch to the worker. -/
theorem respond_dispatched (employed : Employed workerId k) (consumer : Fin n) {k' : Cluster n} {calls : List Event}
    (acts : Acts workerId k (.respond consumer) calls k') :
    (((k.phases consumer).answers (k'.phases consumer)).map fun taskId => (taskId, workerId)).Sublist
      (Machine.collect System.step Broadcaster.answered k.system calls) := by
  have unanswered : (k.phases consumer).Moves workerId False (k'.phases consumer) →
      (((k.phases consumer).answers (k'.phases consumer)).map fun taskId => (taskId, workerId)).Sublist
        (Machine.collect System.step Broadcaster.answered k.system calls) := by
    intro moves
    rw [moves.unanswered not_false]
    exact List.nil_sublist _
  cases acts with
  | stays | fails => exact unanswered (.stays _)
  | proceeds moves => exact unanswered (moves_place (P := fun _ => False) (moves _) rfl consumer)
  | @responds _ call worker timeout task waiting free found =>
    have named := employed.named consumer call _ waiting found
    rw [waiting, Machine.collect, Machine.collect, Broadcaster.answered_returned free found, List.append_nil]
    dsimp only [Cluster.place]
    rw [Function.update_self]
    cases task with
    | none => exact List.nil_sublist _
    | some task =>
      simp only [Broadcaster.returning, named]
      exact List.Sublist.refl _

/-- The answers to the consumers are among those the scheduler gives. -/
theorem answers_dispatched (employed : Employed workerId k) (event : ClusterEvent n) :
    ((passing Phase.answers workerId k event).map fun taskId => (taskId, workerId)).Sublist
      (Machine.collect System.step Broadcaster.answered k.system (k.systemEvents workerId event)) := by
  by_cases responds : ∃ consumer, event = .respond consumer
  · obtain ⟨consumer, rfl⟩ := responds
    rw [passing_alone consumer fun other different =>
      (k.moves_act (.respond consumer) other).unanswered fun same => different (ClusterEvent.respond.inj same).symm]
    exact respond_dispatched employed consumer (k.act_acts _)
  · have none : passing Phase.answers workerId k event = [] :=
      List.flatMap_eq_nil_iff.mpr fun other _ =>
        (k.moves_act event other).unanswered fun same => responds ⟨other, same⟩
    rw [none]
    exact List.nil_sublist _

theorem answers_subperm (config : Settings) (workerId : String) (events : List (ClusterEvent n)) :
    ((answersOf config workerId events).map fun taskId => (taskId, workerId)).Subperm
      (Broadcaster.dispatchesOf config (eventsOf config workerId events)) := by
  have given : ((answersOf config workerId events).map fun taskId => (taskId, workerId)).Sublist
      (Machine.collect System.step Broadcaster.answered (System.init config) (eventsOf config workerId events)) := by
    have simulated : Machine.collect System.step Broadcaster.answered (init config n).system
        (eventsOf config workerId events) = _ :=
      Machine.collect_simulates (a := Cluster.system) step_system (init config n) events
    rw [show (System.init config) = (init config n).system from rfl, simulated, answersOf, ← List.filterMap_eq_map,
      Machine.collect_filterMap]
    simp only [List.filterMap_eq_map]
    exact Machine.collect_sublist (I := Employed workerId) (fun _ event employed => employed.step event)
      (fun _ event employed => answers_dispatched employed event) (employed_init config) events
  have ledger : (Broadcaster.unanswered (System.init config) ++ _).Perm _ :=
    Machine.run_conserves_perm (I := System.Consistent) (fun _ event given => System.step_consistent given event)
      (fun _ event given => Broadcaster.step_dispatches given.represented given.wired event)
      (System.consistent_init config) (eventsOf config workerId events)
  exact given.subperm.trans ((List.sublist_append_left _ _).subperm.trans ledger.symm.subperm)

/-- Every report of the worker's consumers is the result of one execution, every execution is of a task a call was
answered with, and every answer is a dispatch of the queue to this worker; what is missing is still on its way. -/
theorem reports_traced (config : Settings) (workerId : String) (events : List (ClusterEvent n)) :
    ((answersOf config workerId events).map fun taskId => (taskId, workerId)).Subperm
        (Broadcaster.dispatchesOf config (eventsOf config workerId events)) ∧
      (answersOf config workerId events).Perm
        ((executionsOf config workerId events).map TaskResult.taskId ++
          having Phase.carried (after config workerId events)) ∧
      (executionsOf config workerId events).Perm
        (reportsOf config workerId events ++ having Phase.sending (after config workerId events)) ∧
      ∀ result ∈ executionsOf config workerId events,
        ∃ taskId outcome startedAt finishedAt, result = execute taskId workerId outcome startedAt finishedAt :=
  ⟨answers_subperm config workerId events, answers_executed config workerId events,
    executions_reported config workerId events, fun _ executed => executionsOf_execute executed⟩

end Cluster

end TaskRunner
