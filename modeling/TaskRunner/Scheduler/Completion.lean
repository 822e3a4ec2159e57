import TaskRunner.Scheduler.Reports

/-!
What `completed_tasks` says of the statuses. It only grows, so it holds the ids that have succeeded at some time, and
those that are succeeded now only as long as nothing acts on a task after its success.
-/

namespace TaskRunner
open Base InMemoryTaskQueue

namespace InMemoryTaskQueue

def Succeeded (q : InMemoryTaskQueue) (id : String) : Prop := ∃ task, q.task? id = some task ∧ task.status = .succeeded

theorem succeeded_iff {q : InMemoryTaskQueue} {id : String} :
    q.Succeeded id ↔ ∃ l, q.life id = some l ∧ l.task.status = .succeeded := by
  constructor
  · intro given
    obtain ⟨task, named, status⟩ := given
    obtain ⟨l, alive, rfl⟩ := life_of_task? named
    exact ⟨l, alive, status⟩
  · intro given
    obtain ⟨l, alive, status⟩ := given
    exact ⟨l.task, task?_of_life alive, status⟩

/-- The call does not cancel or retry a succeeded task, report it as anything but succeeded, or hand it out again. -/
def SparesSucceeded (q : InMemoryTaskQueue) (call : Call) : Prop :=
  match call with
  | .complete taskId status _ => status = .succeeded ∨ ∀ task ∈ q.task? taskId, task.status ≠ .succeeded
  | .retry taskId _ _ | .cancel taskId => ∀ task ∈ q.task? taskId, task.status ≠ .succeeded
  | .reserve .. => ∀ id ∈ q.handed call, ∀ task ∈ q.task? id, task.status ≠ .succeeded
  | _ => True

instance (q : InMemoryTaskQueue) (call : Call) : Decidable (SparesSucceeded q call) :=
  match call with
  | .complete taskId status _ =>
    inferInstanceAs (Decidable (status = .succeeded ∨ ∀ task ∈ q.task? taskId, task.status ≠ .succeeded))
  | .retry taskId _ _ | .cancel taskId =>
    inferInstanceAs (Decidable (∀ task ∈ q.task? taskId, task.status ≠ .succeeded))
  | .reserve worker completed leaseSeconds clock => inferInstanceAs (Decidable
      (∀ id ∈ q.handed (.reserve worker completed leaseSeconds clock), ∀ task ∈ q.task? id, task.status ≠ .succeeded))
  | .submit .. | .submitMany .. | .requeueExpiredLeases _ | .snapshot _ => inferInstanceAs (Decidable True)

theorem step_spared {q : InMemoryTaskQueue} (rep : Represented q) (leased : Everywhere Life.Leased q) {call : Call}
    (spares : SparesSucceeded q call) {id : String} (succeeded : q.Succeeded id) : (q.step call).Succeeded id := by
  obtain ⟨l, alive, status⟩ := succeeded_iff.mp succeeded
  have named := task?_of_life alive
  obtain ⟨l', alive', rfl | ⟨_, effect⟩⟩ := step_life rep call alive
  · exact succeeded_iff.mpr ⟨l', alive', status⟩
  · refine succeeded_iff.mpr ⟨l', alive', ?_⟩
    cases effect.move with
    | settle settles =>
      rw [settles.task]
      exact status
    | dispatch made handed =>
      subst made
      exact (spares id handed l.task named status).elim
    | complete made =>
      subst made
      exact spares.resolve_right fun other => other l.task named status
    | retry made =>
      subst made
      exact (spares l.task named status).elim
    | cancel made =>
      subst made
      exact (spares l.task named status).elim
    | expire _ late =>
      -- a leased task is running
      have running := ((leased id l alive).running late.1).1
      rw [status] at running
      cases running

end InMemoryTaskQueue

namespace System

/-- The task had succeeded at some point of the run. -/
def EverSucceeded (config : Settings) (events : List Event) (id : String) : Prop :=
  ∃ before, before <+: events ∧ (after config before).engine.queue.Succeeded id

theorem after_snoc (config : Settings) (events : List Event) (event : Event) :
    after config (events ++ [event]) = (after config events).step event := Machine.run_append _ _ _

theorem EverSucceeded.later {config : Settings} {events : List Event} {id : String}
    (ever : EverSucceeded config events id) (event : Event) : EverSucceeded config (events ++ [event]) id := by
  obtain ⟨before, earlier, succeeded⟩ := ever
  exact ⟨before, earlier.trans (List.prefix_append _ _), succeeded⟩

/-- The section that settles a success report leaves its task succeeded. -/
theorem proceed_succeeded {s : System} (rep : Represented s.engine.queue) {clock : Clock} {result : TaskResult}
    {task : TaskRef} (next : (s.proceed clock).frame = .noteCompleted result task) :
    (s.proceed clock).engine.queue.Succeeded result.taskId := by
  obtain ⟨frame, succeeded⟩ := proceed_noteCompleted next
  rw [proceed_queue, queueStep, queueCall, frame]
  show (s.engine.queue.step (reportCall result clock)).Succeeded result.taskId
  rw [reportCall, if_pos succeeded]
  cases alive : s.engine.queue.life result.taskId with
  | none =>
    -- an unknown id would have ended the report
    have unknown : s.engine.queue.tasks.get? result.taskId = none := Option.map_eq_none_iff.mp alive
    simp only [proceed, frame, SchedulerEngine.settleReport, succeeded, if_true, complete_unknown rep unknown] at next
    cases next
  | some l =>
    have issued : (Call.complete result.taskId .succeeded none).Issued s.engine.queue := Or.inl rfl
    obtain ⟨l', alive', effect⟩ := (exec_stepped rep _ issued).lives result.taskId l alive
    rw [step_issued issued]
    refine succeeded_iff.mpr ⟨l', alive', ?_⟩
    rw [show l' = _ from effect, if_pos rfl]
    rfl

/-- An id is noted by the section after the one that settled its success. -/
theorem noted_before {s : System} (rep : Represented s.engine.queue) {event : Event} {id : String}
    (noted : (s.step event).Noted id) : s.Noted id ∨ (s.step event).engine.queue.Succeeded id := by
  rcases proceed_or_stays s event with ⟨clock, rfl⟩ | stays
  · rcases noted with member | ⟨result, task, next, rfl⟩
    · change id ∈ (s.proceed clock).engine.completedTasks at member
      rw [proceed_completed] at member
      left
      split at member
      · rename_i result task frame
        exact (Finset.mem_insert.mp member).elim (fun same => Or.inr ⟨result, task, frame, same.symm⟩) Or.inl
      · exact Or.inl member
    · exact Or.inr (proceed_succeeded rep next)
  · left
    rcases noted with member | ⟨result, task, next, same⟩
    · rw [stays.completedTasks] at member
      exact Or.inl member
    · rcases stays.frame with unmoved | ⟨_, opened⟩
      · exact Or.inr ⟨result, task, unmoved.symm.trans next, same⟩
      · rw [next] at opened
        cases opened

theorem noted_everSucceeded (config : Settings) (events : List Event) (id : String)
    (noted : (after config events).Noted id) : EverSucceeded config events id := by
  induction events using List.reverseRecOn with
  | nil =>
    rcases noted with member | ⟨_, _, frame, _⟩
    · exact (Finset.notMem_empty id member).elim
    · cases frame
  | append_singleton events event ih =>
    rw [after_snoc] at noted
    rcases noted_before (after_represented config events) noted with before | succeeded
    · exact (ih before).later event
    · refine ⟨_, List.prefix_refl _, ?_⟩
      rw [after_snoc]
      exact succeeded

theorem everSucceeded_noted (config : Settings) (events : List Event) (id : String)
    (ever : EverSucceeded config events id) : (after config events).Noted id := by
  obtain ⟨before, ⟨rest, rfl⟩, succeeded⟩ := ever
  obtain ⟨l, alive, status⟩ := succeeded_iff.mp succeeded
  have noted : (after config before).Noted id := after_recorded config before id l alive status
  unfold after at noted ⊢
  rw [Machine.run_append]
  exact Machine.run_invariant (I := fun s : System => s.Noted id) (fun s event held => step_noted event held) noted rest

/-- What is noted has succeeded and is succeeded still. -/
def Faithful (s : System) : Prop := ∀ id, s.Noted id → s.engine.queue.Succeeded id

theorem step_faithful {s : System} (rep : Represented s.engine.queue) (leased : Everywhere Life.Leased s.engine.queue)
    (faithful : Faithful s) {event : Event} (spares : ∀ call ∈ s.queueCall event, SparesSucceeded s.engine.queue call) :
    Faithful (s.step event) := by
  intro id noted
  rcases noted_before rep noted with before | succeeded
  · exact step_keeps (I := fun q => q.Succeeded id) (faithful id before) fun call made =>
      step_spared rep leased (spares call made) (faithful id before)
  · exact succeeded

theorem after_faithful (config : Settings) (events : List Event)
    (spares : Machine.Along step (fun s event => ∀ call ∈ s.queueCall event, SparesSucceeded s.engine.queue call)
      (init config) events) : Faithful (after config events) := by
  let I : System → Prop := fun s => (Represented s.engine.queue ∧ Everywhere Life.Leased s.engine.queue) ∧ Faithful s
  have preserve : ∀ s event, I s → (∀ call ∈ s.queueCall event, SparesSucceeded s.engine.queue call) →
      I (s.step event) := by
    intro s event given spared
    obtain ⟨held, faithful⟩ := given
    exact ⟨step_everywhere Life.leased_stable held event, step_faithful held.1 held.2 faithful spared⟩
  have start : I (init config) := by
    refine ⟨⟨represented_init _, everywhere_init _ _⟩, ?_⟩
    intro id noted
    rcases noted with member | ⟨_, _, frame, _⟩
    · exact (Finset.notMem_empty id member).elim
    · cases frame
  exact (Machine.run_invariant_along preserve start spares).2

/-- With no operation in progress `completed_tasks` holds the ids that have succeeded at some point of the run, and
these are the ids succeeded now when nothing has acted on a task after its success. A dependent task is dispatched only
after each of its dependencies has succeeded at some point. -/
theorem completed_everSucceeded (config : Settings) (events : List Event) :
    ((after config events).idle = true →
      (∀ id, id ∈ (after config events).engine.completedTasks ↔ EverSucceeded config events id) ∧
      (∀ id, (after config events).engine.queue.Succeeded id → id ∈ (after config events).engine.completedTasks) ∧
      (Machine.Along step (fun s event => ∀ call ∈ s.queueCall event, SparesSucceeded s.engine.queue call)
        (init config) events →
        ∀ id, id ∈ (after config events).engine.completedTasks ↔ (after config events).engine.queue.Succeeded id)) ∧
    ∀ event, ∀ id ∈ (after config events).dispatched event, ∀ task ∈ (after config events).engine.queue.task? id,
      ∀ dependency ∈ task.spec.dependsOn, EverSucceeded config events dependency := by
  constructor
  · intro free
    have settled : ∀ id, (after config events).Noted id ↔ id ∈ (after config events).engine.completedTasks := by
      intro id
      refine ⟨fun noted => noted.resolve_right ?_, Or.inl⟩
      intro given
      obtain ⟨_, _, frame, _⟩ := given
      rw [frame_of_idle free] at frame
      cases frame
    have now : ∀ id, (after config events).engine.queue.Succeeded id →
        id ∈ (after config events).engine.completedTasks := fun id succeeded =>
      (settled id).mp (everSucceeded_noted config events id ⟨events, List.prefix_refl _, succeeded⟩)
    refine ⟨fun id => ?_, now, fun spares id => ?_⟩
    · rw [← settled]
      exact ⟨noted_everSucceeded config events id, everSucceeded_noted config events id⟩
    · exact ⟨fun member => after_faithful config events spares id (Or.inl member), now id⟩
  · intro event id dispatched task named dependency needed
    obtain ⟨call, clock, monotonic, c, shared, deadline, rfl, _, _, handed⟩ := dispatched_pass dispatched
    obtain ⟨other, known, _, dependencies, _⟩ := handed_reservable (after_represented config events) handed
    obtain rfl : other = task := Option.some.inj (known.symm.trans named)
    have completed := dependencies needed
    unfold completedFor at completed
    split at completed
    · exact noted_everSucceeded config events dependency (Or.inl completed)
    · exact (Finset.notMem_empty dependency completed).elim

theorem completed_everSucceeded_sample :
    "a" ∈ (after {} (sampleDispatch ++ sampleReport .succeeded 4)).engine.completedTasks ↔
      (after {} (sampleDispatch ++ sampleReport .succeeded 4)).engine.queue.Succeeded "a" :=
  ((completed_everSucceeded {} (sampleDispatch ++ sampleReport .succeeded 4)).1 (by decide +kernel)).2.2
    (by decide +kernel) "a"

/-- A succeeded task is cancelled, and a task that depends on it is submitted after that. -/
def sampleOutdated : List Event :=
  sampleDispatch ++ sampleReport .succeeded 4 ++
    [.cancelTask "a", .proceed (fun _ => 4),
      .submit { spec := { target := "jobs:run", dependsOn := {"a"} }, taskId := "b", createdAt := 5, availableAt := 5 }
        (fun _ => 5),
      .proceed (fun _ => 5), .reserveTask "w" 1, .reserveEnters 1 6]

/-- The cancelled task still counts as completed, and the dependent one is dispatched. -/
theorem completed_succeeded_fails :
    (after {} sampleOutdated).idle = true ∧
      (¬ ∀ id, id ∈ (after {} sampleOutdated).engine.completedTasks ↔
        (after {} sampleOutdated).engine.queue.Succeeded id) ∧
      (after {} sampleOutdated).dispatched (.reservePass 1 (fun _ => 7) 7) = some "b" := by
  refine ⟨by decide +kernel, fun same => ?_, by decide +kernel⟩
  obtain ⟨task, named, succeeded⟩ := (same "a").mp (by decide +kernel)
  have cancelled : ∀ t ∈ (after {} sampleOutdated).engine.queue.task? "a", t.status = .cancelled := by decide +kernel
  rw [cancelled task named] at succeeded
  cases succeeded

end System

end TaskRunner
