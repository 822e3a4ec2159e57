import TaskRunner.Scheduler.Routing
import TaskRunner.Queue.Dispatchability

/-!
A `reserve_task` call that waits, against one made afresh at each pass. The waiting call reads the completed set through
the reference it was given, unless the set was empty then, which `or set()` takes for none.
-/

namespace TaskRunner
open Base InMemoryTaskQueue

namespace InMemoryTaskQueue

variable {q : InMemoryTaskQueue} {worker : WorkerInfo} {completed view : Finset String} {leaseSeconds : ℚ} {clock : Clock}

theorem Candidate.weaken {now : ℚ} {queueName : String} {entry : ReadyEntry}
    (candidate : q.Candidate worker view now queueName entry) (fewer : view ⊆ completed) :
    q.Candidate worker completed now queueName entry := by
  obtain ⟨task, named, accepts, dependencies⟩ := candidate.accepted
  exact ⟨candidate.subscribed, candidate.listed, candidate.live, task, named, accepts, dependencies.trans fewer⟩

/-- Whether an entry is a candidate depends on its task, but for the heap it is in. -/
theorem Candidate.alike {now : ℚ} {queueName name : String} {entry other : ReadyEntry}
    (candidate : q.Candidate worker view now queueName entry) (listed : q.Candidate worker completed now name other)
    (same : entry.taskId = other.taskId) : q.Candidate worker view now name other :=
  ⟨listed.subscribed, listed.listed, listed.live, same ▸ candidate.accepted⟩

theorem handed_eq_none (rep : Represented q) (heaped : Heaped q) :
    q.handed (.reserve worker completed leaseSeconds clock) = none ↔
      ∀ queueName entry, ¬ q.Candidate worker completed (clock 0) queueName entry := by
  obtain ⟨p, outcome, r, promoted, result, barren, _, taken⟩ :=
    reserve_selection rep heaped worker completed leaseSeconds clock
  rw [← barren]
  cases outcome with
  | none => exact iff_of_true (handed_none result) rfl
  | some task =>
    obtain ⟨queueName, entry, _, _, leased⟩ := taken task rfl
    rw [leased.handed rep promoted result]
    exact iff_of_false (Option.some_ne_none _) (Option.some_ne_none _)

theorem handed_eq_some (rep : Represented q) (heaped : Heaped q) {id : String} :
    q.handed (.reserve worker completed leaseSeconds clock) = some id ↔
      ∃ queueName entry, q.Candidate worker completed (clock 0) queueName entry ∧ entry.taskId = id ∧
        ∀ name other, q.Candidate worker completed (clock 0) name other → entry ≤ other := by
  obtain ⟨p, outcome, r, promoted, result, barren, _, taken⟩ :=
    reserve_selection rep heaped worker completed leaseSeconds clock
  cases outcome with
  | none =>
    rw [handed_none result]
    apply iff_of_false (Option.some_ne_none id).symm
    intro given
    obtain ⟨queueName, entry, candidate, _⟩ := given
    exact barren.mp rfl queueName entry candidate
  | some task =>
    obtain ⟨queueName, entry, candidate, least, leased⟩ := taken task rfl
    rw [leased.handed rep promoted result, Option.some.injEq]
    constructor
    · intro same
      exact ⟨queueName, entry, candidate, same, least⟩
    · intro given
      obtain ⟨name, other, candidate', same, least'⟩ := given
      rw [← same, le_antisymm (least name other candidate') (least' queueName entry candidate)]

/-- A call that sees fewer completed tasks hands out the same task exactly when it has a candidate before or at each one
that all completed tasks allow. -/
theorem handed_view_iff (rep : Represented q) (heaped : Heaped q) (fewer : view ⊆ completed) :
    q.handed (.reserve worker view leaseSeconds clock) = q.handed (.reserve worker completed leaseSeconds clock) ↔
      ∀ queueName entry, q.Candidate worker completed (clock 0) queueName entry →
        ∃ name other, q.Candidate worker view (clock 0) name other ∧ other ≤ entry := by
  constructor
  · intro same queueName entry candidate
    cases handed : q.handed (.reserve worker completed leaseSeconds clock) with
    | none => exact ((handed_eq_none rep heaped).mp handed queueName entry candidate).elim
    | some id =>
      rw [handed] at same
      obtain ⟨name, best, chosen, named, least⟩ := (handed_eq_some rep heaped).mp handed
      obtain ⟨_, seen, eligible, alike, _⟩ := (handed_eq_some rep heaped).mp same
      exact ⟨name, best, eligible.alike chosen (alike.trans named.symm), least queueName entry candidate⟩
  · intro covered
    cases handed : q.handed (.reserve worker completed leaseSeconds clock) with
    | none =>
      apply (handed_eq_none rep heaped).mpr
      intro queueName entry candidate
      exact (handed_eq_none rep heaped).mp handed queueName entry (candidate.weaken fewer)
    | some id =>
      obtain ⟨name, best, chosen, named, least⟩ := (handed_eq_some rep heaped).mp handed
      obtain ⟨name', other, eligible, before⟩ := covered name best chosen
      obtain rfl : other = best := le_antisymm before (least name' other (eligible.weaken fewer))
      refine (handed_eq_some rep heaped).mpr ⟨name', other, eligible, named, fun queueName entry candidate => ?_⟩
      exact least queueName entry (candidate.weaken fewer)

end InMemoryTaskQueue

namespace System

/-- The id of the task that a `timeout=0` call of the same worker returns when it is made in place of the pass. -/
def freshly (s : System) : Event → Option String
  | .reservePass call clock _ =>
    match s.calls.get? call with
    | some { worker, phase := .waiting _ _, .. } =>
      s.engine.queue.handed (.reserve (s.engine.workerObjects worker) s.engine.completedTasks
        s.engine.config.leaseSeconds clock)
    | _ => none
  | _ => none

/-- A pass that does not read the completed set has an entry of a task without dependencies before or at each entry
that the completed set makes eligible. -/
def SeesCompleted (s : System) : Event → Prop
  | .reservePass call clock _ =>
    match s.calls.get? call with
    | some { worker, phase := .waiting false _, .. } =>
      ∀ queueName entry, s.engine.queue.Candidate (s.engine.workerObjects worker) s.engine.completedTasks (clock 0)
        queueName entry → ∃ name other, s.engine.queue.Candidate (s.engine.workerObjects worker) ∅ (clock 0) name other ∧
          other ≤ entry
    | _ => True
  | _ => True

theorem dispatched_freshly_iff {s : System} (rep : Represented s.engine.queue) (heaped : Heaped s.engine.queue)
    (event : Event) : s.dispatched event = s.freshly event ↔ s.SeesCompleted event := by
  cases event with
  | reservePass call clock monotonic =>
    simp only [dispatched, queueCall, freshly, SeesCompleted]
    cases s.calls.get? call with
    | none => exact iff_of_true rfl trivial
    | some c =>
      obtain ⟨worker, timeout, phase⟩ := c
      cases phase with
      | scheduled | returned => exact iff_of_true rfl trivial
      | waiting shared deadline =>
        cases shared with
        | true => exact iff_of_true rfl trivial
        | false => exact handed_view_iff rep heaped (Finset.empty_subset _)
  | _ =>
    refine iff_of_true ?_ trivial
    apply Option.eq_none_iff_forall_not_mem.mpr
    intro id dispatched
    obtain ⟨_, _, _, _, _, _, made, _⟩ := dispatched_pass dispatched
    cases made

/-- In every reachable state a pass of a waiting call returns what a call made afresh returns exactly when it reads the
completed set or needs nothing of it, and a whole run goes so exactly when each of its passes does. -/
theorem waiting_reserve_fresh (config : Settings) (events : List Event) :
    (∀ event, (after config events).dispatched event = (after config events).freshly event ↔
      (after config events).SeesCompleted event) ∧
    (Machine.Along step (fun s event => s.dispatched event = s.freshly event) (init config) events ↔
      Machine.Along step SeesCompleted (init config) events) := by
  constructor
  · intro event
    have rep := after_represented config events
    have heaped : Heaped (after config events).engine.queue := by
      rw [after_queue]
      exact runCalls_heaped _ _
    exact dispatched_freshly_iff rep heaped event
  · refine Machine.along_congr (I := fun s : System => Represented s.engine.queue ∧ Heaped s.engine.queue) ?_ ?_
      ⟨represented_init _, heaped_init _⟩ events
    · intro s event held
      exact step_keeps (I := fun q => Represented q ∧ Heaped q) held fun call _ =>
        ⟨step_represented held.1 call, step_heaped held.2 call⟩
    · intro s event held
      exact dispatched_freshly_iff held.1 held.2 event

def sampleFollower : Submission :=
  { sampleTask "b" with spec := { target := "jobs:run", dependsOn := {"a"} } }

/-- A second worker begins to wait before any task has succeeded, and the task it may have depends on one that
succeeds meanwhile. -/
def sampleWaiting : List Event :=
  [.registerWorker (sampleWorker "w") 0, .registerWorker (sampleWorker "w2") 0, .submit (sampleTask "a") (fun _ => 1),
    .proceed (fun _ => 1), .submit sampleFollower (fun _ => 1), .proceed (fun _ => 1), .reserveTask "w" 1,
    .reserveEnters 0 1, .reservePass 0 (fun _ => 2) 1, .reserveReturns 0, .proceed (fun _ => 2), .reserveTask "w2" 10,
    .reserveEnters 1 2, .reservePass 1 (fun _ => 2) 2] ++ sampleReport .succeeded 4

theorem waiting_reserve_fails :
    (after {} sampleWaiting).dispatched (.reservePass 1 (fun _ => 5) 5) = none ∧
      (after {} sampleWaiting).freshly (.reservePass 1 (fun _ => 5) 5) = some "b" ∧
      ¬ Machine.Along step (fun s event => s.dispatched event = s.freshly event) (init {})
        (sampleWaiting ++ [.reservePass 1 (fun _ => 5) 5]) := by
  refine ⟨?_, ?_, ?_⟩ <;> decide +kernel

end System

end TaskRunner
