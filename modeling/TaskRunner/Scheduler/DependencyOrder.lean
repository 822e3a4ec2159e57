import TaskRunner.Base.Causality
import TaskRunner.Scheduler.Charges
import TaskRunner.Scheduler.Provenance
import TaskRunner.Scheduler.Routing

/-!
The order in which dependent tasks run. A dispatch waits for the success of each dependency; where a success is only
reported of a task that was dispatched, the dispatches follow the whole dependency graph.
-/

namespace TaskRunner
open Base InMemoryTaskQueue

namespace System

/-- What has to happen to a task before its dependents run. -/
inductive Milestone where
  | dispatched (taskId : String)
  | succeeded (taskId : String)

def Milestone.dispatch : Milestone → Option String
  | .dispatched taskId => some taskId
  | .succeeded _ => none

def Milestone.success : Milestone → Option String
  | .dispatched _ => none
  | .succeeded taskId => some taskId

def milestones (s : System) (event : Event) : List Milestone :=
  (s.settledSuccess event).map .succeeded ++ (s.dispatched event).toList.map .dispatched

/-- The milestones of a run, in order. -/
def milestonesOf (config : Settings) (events : List Event) : List Milestone :=
  Machine.collect step milestones (init config) events

/-- One task names the other among its dependencies. -/
def DependsOn (s : System) (id dependency : String) : Prop :=
  ∃ task, s.engine.queue.task? id = some task ∧ dependency ∈ task.spec.dependsOn

/-- A dispatch waits for the success of each dependency, and a success for a dispatch. -/
def WaitsFor (s : System) : Milestone → Milestone → Prop
  | .dispatched id, .succeeded dependency => s.DependsOn id dependency
  | .succeeded id, .dispatched other => other = id
  | _, _ => False

/-- Success is reported only of tasks that were dispatched before. -/
def Honest (config : Settings) (events : List Event) : Prop :=
  ∀ n (inside : n < events.length), ∀ id ∈ (after config (events.take n)).settledSuccess events[n],
    id ∈ dispatchedOf config (events.take n)

instance (config : Settings) (events : List Event) : Decidable (Honest config events) :=
  inferInstanceAs (Decidable (∀ n (inside : n < events.length),
    ∀ id ∈ (after config (events.take n)).settledSuccess events[n], id ∈ dispatchedOf config (events.take n)))

theorem milestones_dispatched (config : Settings) (events : List Event) :
    (milestonesOf config events).filterMap Milestone.dispatch = dispatchedOf config events := by
  rw [milestonesOf, Machine.collect_filterMap]
  refine Machine.collect_congr (I := fun _ => True) (fun _ _ _ => trivial) (fun s event _ => ?_) trivial events
  rw [milestones, List.filterMap_append, List.filterMap_map, List.filterMap_map]
  have none : ∀ ids : List String, ids.filterMap (Milestone.dispatch ∘ .succeeded) = [] := fun ids =>
    List.filterMap_eq_nil_iff.mpr fun _ _ => rfl
  rw [none, List.nil_append]
  exact List.filterMap_some

theorem milestones_succeeded (config : Settings) (events : List Event) :
    (milestonesOf config events).filterMap Milestone.success = successes config events := by
  rw [milestonesOf, Machine.collect_filterMap]
  refine Machine.collect_congr (I := fun _ => True) (fun _ _ _ => trivial) (fun s event _ => ?_) trivial events
  rw [milestones, List.filterMap_append, List.filterMap_map, List.filterMap_map]
  have none : ∀ ids : List String, ids.filterMap (Milestone.success ∘ .dispatched) = [] := fun ids =>
    List.filterMap_eq_nil_iff.mpr fun _ _ => rfl
  rw [none, List.append_nil]
  exact List.filterMap_some

theorem mem_dispatched {config : Settings} {events : List Event} {id : String} :
    .dispatched id ∈ milestonesOf config events ↔ id ∈ dispatchedOf config events := by
  rw [← milestones_dispatched, List.mem_filterMap]
  constructor
  · exact fun member => ⟨_, member, rfl⟩
  · rintro ⟨milestone, member, named⟩
    cases milestone with
    | dispatched other =>
      rw [← Option.some.inj named]
      exact member
    | succeeded other => cases named

theorem mem_succeeded {config : Settings} {events : List Event} {id : String} :
    .succeeded id ∈ milestonesOf config events ↔ id ∈ successes config events := by
  rw [← milestones_succeeded, List.mem_filterMap]
  constructor
  · exact fun member => ⟨_, member, rfl⟩
  · rintro ⟨milestone, member, named⟩
    cases milestone with
    | dispatched other => cases named
    | succeeded other =>
      rw [← Option.some.inj named]
      exact member

/-- The success of each dependency of a dispatched task was processed before. -/
theorem dispatched_dependencies (config : Settings) (events : List Event) {event : Event} {id : String}
    (dispatched : id ∈ (after config events).dispatched event) :
    ∃ task, (after config events).engine.queue.task? id = some task ∧
      ∀ dependency ∈ task.spec.dependsOn, dependency ∈ successes config events := by
  obtain ⟨call, clock, monotonic, c, shared, deadline, rfl, found, _, handed⟩ := dispatched_pass dispatched
  obtain ⟨task, known, _, dependencies, _⟩ := handed_reservable (after_represented config events) handed
  refine ⟨task, known, fun dependency needed => ?_⟩
  have completed := dependencies needed
  unfold completedFor at completed
  split at completed
  · exact (after_accounted config events).1 dependency completed
  · exact (Finset.notMem_empty dependency completed).elim

/-- A task keeps its dependencies for as long as the scheduler runs. -/
theorem dependencies_kept (config : Settings) (before later : List Event) {id : String} {task : TaskEnvelope}
    (named : (after config before).engine.queue.task? id = some task) {dependency : String}
    (needed : (after config (before ++ later)).DependsOn id dependency) : dependency ∈ task.spec.dependsOn := by
  let I : System → Prop := fun s => Represented s.engine.queue ∧
    ∃ task', s.engine.queue.task? id = some task' ∧ task'.spec = task.spec
  have preserve : ∀ s event, I s → I (s.step event) := by
    intro s event held
    obtain ⟨rep, task', named', same⟩ := held
    obtain ⟨task'', named'', kept⟩ := step_same rep event named'
    exact ⟨represented_step rep event, task'', named'', kept.2.1.trans same⟩
  have start : I (after config before) := ⟨after_represented config before, task, named, rfl⟩
  have run := Machine.run_invariant preserve start later
  unfold after at needed run
  rw [← Machine.run_append] at run
  obtain ⟨_, task', named', same⟩ := run
  obtain ⟨other, named'', member⟩ := needed
  obtain rfl := Option.some.inj (named'.symm.trans named'')
  rwa [← same]

/-- In an honest run each milestone comes after those it waits for. -/
theorem milestones_justified (config : Settings) (events : List Event) (honest : Honest config events) :
    Justified (after config events).WaitsFor (milestonesOf config events) := by
  apply Machine.collect_justified
  intro before event later split x emitted y needed
  change x ∈ (after config before).milestones event at emitted
  change y ∈ milestonesOf config before
  rcases List.mem_append.mp emitted with success | dispatch
  · obtain ⟨id, settled, rfl⟩ := List.mem_map.mp success
    cases y with
    | succeeded other => cases needed
    | dispatched other =>
      obtain rfl : other = id := needed
      have inside : before.length < events.length := by
        rw [split, List.length_append, List.length_cons]
        omega
      have reported := honest before.length inside other
      simp only [split, List.take_left', List.getElem_append_right, le_refl, Nat.sub_self, List.getElem_cons_zero] at reported
      exact mem_dispatched.mpr (reported settled)
  · obtain ⟨id, dispatched, rfl⟩ := List.mem_map.mp dispatch
    cases y with
    | dispatched other => cases needed
    | succeeded dependency =>
      obtain ⟨task, named, done⟩ := dispatched_dependencies config before (Option.mem_toList.mp dispatched)
      have needed : (after config (before ++ event :: later)).DependsOn id dependency := by
        rw [← split]
        exact needed
      exact mem_succeeded.mpr (done dependency (dependencies_kept config before (event :: later) named needed))

/-- A dependency, direct or not, is awaited by way of a success and, in turn, of its dispatch. -/
theorem waits_through {s : System} {id dependency : String} (depends : Relation.TransGen s.DependsOn id dependency) :
    Relation.TransGen s.WaitsFor (.dispatched id) (.succeeded dependency) ∧
      Relation.TransGen s.WaitsFor (.dispatched id) (.dispatched dependency) := by
  have turn : ∀ other, s.WaitsFor (.succeeded other) (.dispatched other) := fun _ => rfl
  induction depends with
  | single needed =>
    have first : Relation.TransGen s.WaitsFor (.dispatched id) (.succeeded _) := .single needed
    exact ⟨first, first.tail (turn _)⟩
  | tail _ needed ih =>
    have next : Relation.TransGen s.WaitsFor (.dispatched id) (.succeeded _) := ih.2.tail needed
    exact ⟨next, next.tail (turn _)⟩

/-- In a run where success is only reported of dispatched tasks, a task is dispatched after all that it depends on,
directly or through others, was dispatched and succeeded; so no task of a dependency cycle is ever dispatched. -/
theorem dependencies_first (config : Settings) (events : List Event) (honest : Honest config events) (event : Event)
    (id : String) (dispatched : id ∈ (after config events).dispatched event) :
    (∀ dependency, Relation.TransGen (after config events).DependsOn id dependency →
      dependency ∈ dispatchedOf config events ∧ dependency ∈ successes config events) ∧
    ¬ Relation.TransGen (after config events).DependsOn id id := by
  have extended : Justified (after config events).WaitsFor (milestonesOf config events ++ [.dispatched id]) := by
    refine (milestones_justified config events honest).append ?_
    intro x member y needed
    obtain rfl := List.mem_singleton.mp member
    cases y with
    | dispatched other => cases needed
    | succeeded dependency =>
      obtain ⟨task, named, done⟩ := dispatched_dependencies config events dispatched
      obtain ⟨other, named', member⟩ := needed
      obtain rfl := Option.some.inj (named.symm.trans named')
      exact mem_succeeded.mpr (done dependency member)
  constructor
  · intro dependency depends
    obtain ⟨success, dispatch⟩ := waits_through depends
    exact ⟨mem_dispatched.mp (extended.closed rfl dispatch), mem_succeeded.mp (extended.closed rfl success)⟩
  · intro cycle
    have last : Milestone.dispatched id ∈ milestonesOf config events ++ [.dispatched id] :=
      List.mem_append_right _ List.mem_cons_self
    exact extended.acyclic last (waits_through cycle).2

theorem dependencies_first_sample :
    (∀ dependency, Relation.TransGen (after {} sampleDependent).DependsOn "b" dependency →
      dependency ∈ dispatchedOf {} sampleDependent ∧ dependency ∈ successes {} sampleDependent) ∧
    ¬ Relation.TransGen (after {} sampleDependent).DependsOn "b" "b" :=
  dependencies_first {} sampleDependent (by decide +kernel) (.reservePass 1 (fun _ => 7) 7) "b" (by decide +kernel)

end System

end TaskRunner
