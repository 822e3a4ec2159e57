import TaskRunner.Queue.Filing
import TaskRunner.Scheduler.Projection

/-!
Batch submission: the whole batch or nothing of it, as long as the queue is full at once or not at all and the store can
hold every priority.
-/

namespace TaskRunner
open Base InMemoryTaskQueue

namespace SchedulerEngine

theorem storeTasks_cons {task : TaskRef} {e : SchedulerEngine} (storable : SQLiteStore.Storable (e.queue.objects task))
    (rest : List TaskRef) (clock : Clock) :
    storeTasks (task :: rest) e clock =
      storeTasks rest { e with store := e.store.putTask (e.queue.objects task) none (clock 0) } (clock.later 1) := by
  rw [storeTasks, storeTask_ok e none (clock 0) storable]

theorem storeTasks_raises {task : TaskRef} {e : SchedulerEngine} (fails : ¬ SQLiteStore.Storable (e.queue.objects task))
    (rest : List TaskRef) (clock : Clock) : ∃ error, storeTasks (task :: rest) e clock = (.error error, e) := by
  obtain ⟨error, raised⟩ := storeTask_error e none (clock 0) fails
  exact ⟨error, by rw [storeTasks, raised]⟩

theorem storeTasks_queue (tasks : List TaskRef) (e : SchedulerEngine) (clock : Clock) :
    (storeTasks tasks e clock).2.queue = e.queue := by
  induction tasks generalizing e clock with
  | nil => rfl
  | cons task rest ih =>
    by_cases storable : SQLiteStore.Storable (e.queue.objects task)
    · rw [storeTasks_cons storable]
      exact ih _ _
    · obtain ⟨error, raised⟩ := storeTasks_raises storable rest clock
      rw [raised]

/-- The loop comes to its end exactly when every task can be written. -/
theorem storeTasks_ok {tasks : List TaskRef} {e : SchedulerEngine} {clock : Clock} :
    (storeTasks tasks e clock).1 = .ok () ↔ ∀ task ∈ tasks, SQLiteStore.Storable (e.queue.objects task) := by
  induction tasks generalizing e clock with
  | nil => exact iff_of_true rfl (List.forall_mem_nil _)
  | cons task rest ih =>
    rw [List.forall_mem_cons]
    by_cases storable : SQLiteStore.Storable (e.queue.objects task)
    · rw [storeTasks_cons storable, ih]
      exact (and_iff_right storable).symm
    · obtain ⟨error, raised⟩ := storeTasks_raises storable rest clock
      rw [raised]
      refine iff_of_false (fun same => ?_) (fun all => storable all.1)
      cases same

theorem storeTasks_other {tasks : List TaskRef} {e : SchedulerEngine} {id : String}
    (other : ∀ task ∈ tasks, (e.queue.objects task).taskId ≠ id) (clock : Clock) :
    (storeTasks tasks e clock).2.store.tasks.get? id = e.store.tasks.get? id := by
  induction tasks generalizing e clock with
  | nil => rfl
  | cons task rest ih =>
    rw [List.forall_mem_cons] at other
    by_cases storable : SQLiteStore.Storable (e.queue.objects task)
    · rw [storeTasks_cons storable]
      refine (ih ?_ (clock.later 1)).trans (SQLiteStore.putTask_other _ _ _ _ (Ne.symm other.1))
      exact other.2
    · obtain ⟨error, raised⟩ := storeTasks_raises storable rest clock
      rw [raised]

/-- Every task of the list has a row that shows it. -/
theorem storeTasks_shows {tasks : List TaskRef} {e : SchedulerEngine} {task : TaskRef} (member : task ∈ tasks)
    (storable : ∀ other ∈ tasks, SQLiteStore.Storable (e.queue.objects other))
    (alike : ∀ other ∈ tasks, (e.queue.objects other).taskId = (e.queue.objects task).taskId → other = task)
    (clock : Clock) :
    ∃ row, (storeTasks tasks e clock).2.store.tasks.get? (e.queue.objects task).taskId = some row ∧
      SQLiteStore.Shows row (e.queue.objects task) := by
  induction tasks generalizing e clock with
  | nil => cases member
  | cons first rest ih =>
    rw [List.forall_mem_cons] at storable alike
    rw [storeTasks_cons storable.1]
    let e' : SchedulerEngine := { e with store := e.store.putTask (e.queue.objects first) none (clock 0) }
    by_cases again : task ∈ rest
    · exact ih (e := e') again storable.2 alike.2 (clock.later 1)
    · obtain rfl := (List.mem_cons.mp member).resolve_right again
      obtain ⟨row, stored, shows⟩ := SQLiteStore.putTask_shows e.store (e.queue.objects task) none (clock 0)
      refine ⟨row, ?_, shows⟩
      refine (storeTasks_other (e := e') (fun other inside same => ?_) _).trans stored
      exact again (alike.2 other inside same ▸ inside)

/-- Every task of the batch is in the queue, in the order of the batch, and in the store. -/
structure BatchQueued (e : SchedulerEngine) (specs : List Submission) (clock : Clock) (submitted : List TaskRef)
    (e' : SchedulerEngine) : Prop where
  submitted : submitted = List.range' e.queue.allocated specs.length
  queue : BatchAdmitted e.queue specs clock e'.queue
  rows : ∀ task ∈ specs, ∃ envelope row, e'.queue.task? task.taskId = some envelope ∧
    e'.store.tasks.get? task.taskId = some row ∧ SQLiteStore.Shows row envelope
  others : ∀ id ∉ specs.map Submission.taskId, e'.store.tasks.get? id = e.store.tasks.get? id

/-- `submit_batch` returns with the whole batch queued and stored, or raises with everything as it was. -/
def AllOrNothing (e : SchedulerEngine) (specs : List Submission) (clock : Clock) : Prop :=
  (∃ submitted e', e.submitBatch specs clock = (.ok submitted, e') ∧ BatchQueued e specs clock submitted e') ∨
    ∃ depth maxDepth, e.submitBatch specs clock = (.error (.inl (.queueFull depth maxDepth)), e)

/-- A task as it is queued can be written unless its priority is too large: no priority is left below zero. -/
theorem queued_storable (task : Submission) (now : ℚ) :
    SQLiteStore.Storable (queued task now) ↔ task.spec.priority < 9223372036854775808 := by
  have priority : (queued task now).spec.priority = max 0 (max 0 task.spec.priority) := rfl
  have attempts : (queued task now).attempts = 0 := rfl
  rw [SQLiteStore.Storable, SQLiteStore.Bindable, SQLiteStore.Bindable, priority, attempts]
  omega

/-- Each of the batch's objects belongs to one of its tasks. -/
theorem batch_position {q : InMemoryTaskQueue} {specs : List Submission} {ref : TaskRef}
    (member : ref ∈ List.range' q.allocated specs.length) :
    ∃ i task, specs[i]? = some task ∧ ref = q.allocated + i := by
  obtain ⟨i, inside, rfl⟩ := List.mem_range'.mp member
  have found : specs[i]? = some specs[i] := List.getElem?_eq_getElem inside
  exact ⟨i, specs[i], found, by rw [Nat.one_mul]⟩

/-- The tasks that a batch put into the queue can all be written exactly when no priority of it is too large. -/
theorem batch_storable {q r : InMemoryTaskQueue} {specs : List Submission} {clock : Clock}
    (admitted : BatchAdmitted q specs clock r) :
    (∀ ref ∈ List.range' q.allocated specs.length, SQLiteStore.Storable (r.objects ref)) ↔
      ∀ task ∈ specs, task.spec.priority < 9223372036854775808 := by
  constructor
  · intro storable task member
    obtain ⟨i, found⟩ := List.mem_iff_getElem?.mp member
    have inside := (List.getElem?_eq_some_iff.mp found).1
    have listed : q.allocated + i ∈ List.range' q.allocated specs.length := List.mem_range'.mpr ⟨i, inside, by omega⟩
    have written := storable _ listed
    rw [(admitted.named i task found).2] at written
    exact (queued_storable task _).mp written
  · intro small ref member
    obtain ⟨i, task, found, rfl⟩ := batch_position member
    rw [(admitted.named i task found).2]
    exact (queued_storable task _).mpr (small task (List.mem_of_getElem? found))

theorem submitBatch_fits {e : SchedulerEngine} (rep : Represented e.queue) {specs : List Submission}
    (new : ∀ task ∈ specs, task.taskId ∉ e.queue.tasks) (distinct : (specs.map Submission.taskId).Nodup)
    (clock : Clock) (room : e.queue.depth + specs.length ≤ e.queue.maxDepth)
    (small : ∀ task ∈ specs, task.spec.priority < 9223372036854775808) :
    ∃ submitted e', e.submitBatch specs clock = (.ok submitted, e') ∧ BatchQueued e specs clock submitted e' := by
  obtain ⟨queue, result, admitted⟩ := submitMany_fits rep specs new distinct clock room
  let submitted := List.range' e.queue.allocated specs.length
  have storable := (batch_storable admitted).mpr small
  obtain ⟨e', stored⟩ : ∃ e', storeTasks submitted { e with queue } (clock.later (2 * specs.length)) = (.ok (), e') :=
    ⟨_, Prod.ext (storeTasks_ok.mpr storable) rfl⟩
  have kept : e'.queue = queue := by
    have same := storeTasks_queue submitted { e with queue } (clock.later (2 * specs.length))
    rwa [stored] at same
  have name : ∀ i task, specs[i]? = some task → (queue.objects (e.queue.allocated + i)).taskId = task.taskId := by
    intro i task found
    rw [(admitted.named i task found).2]
    rfl
  refine ⟨submitted, e', by simp only [submitBatch, result]; rw [stored], rfl, by rw [kept]; exact admitted, ?_, ?_⟩
  · intro task member
    obtain ⟨i, found⟩ := List.mem_iff_getElem?.mp member
    have inside := (List.getElem?_eq_some_iff.mp found).1
    have listed : e.queue.allocated + i ∈ submitted := List.mem_range'.mpr ⟨i, inside, by omega⟩
    have alike : ∀ other ∈ submitted, (queue.objects other).taskId = (queue.objects (e.queue.allocated + i)).taskId →
        other = e.queue.allocated + i := by
      intro other there same
      obtain ⟨j, task', found', rfl⟩ := batch_position there
      have known := (admitted.named j task' found').1
      rw [name i task found, name j task' found'] at same
      rw [same, (admitted.named i task found).1, Option.some.injEq] at known
      exact known.symm
    obtain ⟨row, there, shows⟩ :=
      storeTasks_shows (e := { e with queue }) listed storable alike (clock.later (2 * specs.length))
    rw [stored] at there
    refine ⟨queue.objects (e.queue.allocated + i), row, ?_, ?_, shows⟩
    · rw [kept, task?, (admitted.named i task found).1]
      rfl
    · rw [← name i task found]
      exact there
  · intro id absent
    have other : ∀ ref ∈ submitted, (({ e with queue } : SchedulerEngine).queue.objects ref).taskId ≠ id := by
      intro ref member same
      obtain ⟨i, task, found, rfl⟩ := batch_position member
      rw [show ({ e with queue } : SchedulerEngine).queue = queue from rfl, name i task found] at same
      exact absent (same ▸ List.mem_map_of_mem (List.mem_of_getElem? found))
    have others := storeTasks_other other (clock.later (2 * specs.length))
    rwa [stored] at others

/-- With room for the whole batch, a priority that is too large makes a write raise with every task queued. -/
theorem submitBatch_raises {e : SchedulerEngine} (rep : Represented e.queue) {specs : List Submission}
    (new : ∀ task ∈ specs, task.taskId ∉ e.queue.tasks) (distinct : (specs.map Submission.taskId).Nodup)
    (clock : Clock) (room : e.queue.depth + specs.length ≤ e.queue.maxDepth)
    (large : ¬ ∀ task ∈ specs, task.spec.priority < 9223372036854775808) :
    ∃ error e', e.submitBatch specs clock = (.error (.inr error), e') ∧ BatchAdmitted e.queue specs clock e'.queue := by
  obtain ⟨queue, result, admitted⟩ := submitMany_fits rep specs new distinct clock room
  let submitted := List.range' e.queue.allocated specs.length
  have kept := storeTasks_queue submitted { e with queue } (clock.later (2 * specs.length))
  cases stored : storeTasks submitted { e with queue } (clock.later (2 * specs.length)) with
  | mk outcome e' =>
    rw [stored] at kept
    cases outcome with
    | ok =>
      have ended := congrArg Prod.fst stored
      exact (large ((batch_storable admitted).mp (storeTasks_ok.mp ended))).elim
    | error error =>
      refine ⟨error, e', ?_, by rw [kept]; exact admitted⟩
      simp only [submitBatch, result]
      rw [stored]

/-- `submit_batch` is all or nothing exactly when the queue is full before the call, or has room for the whole batch and
no priority of it is too large to be written. -/
theorem allOrNothing_iff {e : SchedulerEngine} (rep : Represented e.queue) {specs : List Submission}
    (new : ∀ task ∈ specs, task.taskId ∉ e.queue.tasks) (distinct : (specs.map Submission.taskId).Nodup)
    (clock : Clock) :
    AllOrNothing e specs clock ↔
      e.queue.maxDepth ≤ e.queue.depth ∨ (e.queue.depth + specs.length ≤ e.queue.maxDepth ∧
        ∀ task ∈ specs, task.spec.priority < 9223372036854775808) := by
  cases specs with
  | nil =>
    refine iff_of_true (Or.inl ⟨[], e, rfl, rfl, ?_, ?_, fun _ _ => rfl⟩) ?_
    · refine ⟨rep, (List.append_nil _).symm, ?_, List.Perm.refl _, fun _ _ => rfl, fun _ _ => rfl, rfl, rfl, rfl⟩
      intro i task found
      cases found
    · intro task member
      cases member
    · rw [List.length_nil, Nat.cast_zero, add_zero]
      exact (le_total _ _).imp_right fun room => ⟨room, List.forall_mem_nil _⟩
  | cons task rest =>
    by_cases full : e.queue.maxDepth ≤ e.queue.depth
    · refine iff_of_true (Or.inr ⟨e.queue.depth, e.queue.maxDepth, ?_⟩) (Or.inl full)
      simp only [submitBatch, List.map_cons, submitMany, submit_full full]
    · rw [or_iff_right full]
      by_cases room : e.queue.depth + (task :: rest).length ≤ e.queue.maxDepth
      · by_cases small : ∀ other ∈ task :: rest, other.spec.priority < 9223372036854775808
        · exact iff_of_true (Or.inl (submitBatch_fits rep new distinct clock room small)) ⟨room, small⟩
        · obtain ⟨error, e', raised, _⟩ := submitBatch_raises rep new distinct clock room small
          refine iff_of_false ?_ fun met => small met.2
          rintro (⟨submitted, e', outcome, _⟩ | ⟨depth, maxDepth, outcome⟩) <;> rw [raised] at outcome <;> cases outcome
      · -- the first task is in the queue, and the call raises
        refine iff_of_false ?_ fun met => room met.1
        obtain ⟨error, r, result, known⟩ :=
          submitMany_overflows rep task rest new distinct clock (not_le.mp full) (not_le.mp room)
        rintro (⟨submitted, e', outcome, _⟩ | ⟨depth, maxDepth, outcome⟩)
        · simp only [submitBatch, result] at outcome
          cases outcome
        · simp only [submitBatch, result] at outcome
          have same : r = e.queue := congrArg SchedulerEngine.queue (Prod.mk.inj outcome).2
          rw [same] at known
          exact new task List.mem_cons_self known

end SchedulerEngine

namespace System

/-- A coroutine that is over has no sections left. -/
theorem idle_sections {s : System} (free : s.frame = .idle) (clocks : ℕ → Clock) (n : ℕ) :
    Machine.run step s ((List.range n).map fun i => .proceed (clocks i)) = s := by
  induction n with
  | zero => rfl
  | succ n ih =>
    rw [List.range_succ, List.map_append, Machine.run_append, ih]
    show s.proceed (clocks n) = s
    simp only [proceed, free]

theorem storeTasks_sections (tasks : List TaskRef) (s : System) (clock : Clock) :
    (Machine.run step { s with frame := .storeTasks tasks }
      ((List.range tasks.length).map fun i => .proceed (clock.later i))).engine =
        (SchedulerEngine.storeTasks tasks s.engine clock).2 := by
  induction tasks generalizing s clock with
  | nil => rfl
  | cons task rest ih =>
    have shifted : (fun i => Event.proceed (clock.later i)) ∘ Nat.succ =
        fun i => Event.proceed ((clock.later 1).later i) := by
      funext i
      refine congrArg Event.proceed (funext fun k => congrArg clock ?_)
      omega
    have first : (clock.later 0) 0 = clock 0 := rfl
    rw [List.length_cons, List.range_succ_eq_map, List.map_cons, List.map_map, Machine.run_cons, shifted]
    by_cases storable : SQLiteStore.Storable (s.engine.queue.objects task)
    · have wrote := SchedulerEngine.storeTask_ok s.engine none (clock 0) storable
      rw [SchedulerEngine.storeTasks_cons storable]
      simp only [step, proceed, first, wrote]
      exact ih { s with engine := { s.engine with
        store := s.engine.store.putTask (s.engine.queue.objects task) none (clock 0) } } (clock.later 1)
    · -- the write raised, and nothing is left to be done
      obtain ⟨error, raised⟩ := SchedulerEngine.storeTask_error s.engine none (clock 0) storable
      obtain ⟨error', ended⟩ := SchedulerEngine.storeTasks_raises storable rest clock
      rw [ended]
      simp only [step, proceed, first, raised]
      rw [idle_sections (by rfl)]

/-- The sections of a `submit_batch`, run one after another with no other event between them. -/
theorem submitBatch_sections {s : System} (free : s.idle = true) {specs : List Submission}
    (new : ∀ task ∈ specs, task.taskId ∉ s.engine.queue.tasks) (distinct : (specs.map Submission.taskId).Nodup)
    (clock : Clock) :
    ∃ n, (Machine.run step s (.submitBatch specs clock ::
      (List.range n).map fun i => .proceed ((clock.later (2 * specs.length)).later i))).engine =
        (s.engine.submitBatch specs clock).2 := by
  cases result : s.engine.queue.submitMany (specs.map Submission.envelope) clock with
  | mk outcome queue =>
    cases outcome with
    | error error =>
      refine ⟨0, ?_⟩
      simp only [SchedulerEngine.submitBatch, result, List.range_zero, List.map_nil, Machine.run, step,
        if_pos (And.intro new distinct), whenIdle, free, if_true]
    | ok refs =>
      refine ⟨refs.length, ?_⟩
      have begun : s.step (.submitBatch specs clock) =
          { s with engine := { s.engine with queue }, frame := .storeTasks refs } := by
        simp only [step, if_pos (And.intro new distinct), whenIdle, free, if_true, result]
      have stored := storeTasks_sections refs { s with engine := { s.engine with queue } }
        (clock.later (2 * specs.length))
      rw [Machine.run_cons, begun]
      refine stored.trans ?_
      simp only [SchedulerEngine.submitBatch, result]
      split <;> rename_i loop <;> rw [loop]

/-- In every reachable state a batch is submitted as a whole or not at all exactly when the queue is full already, or has
room for all of it and every priority fits into a column of the store. -/
theorem batch_allOrNothing (config : Settings) (events : List Event) (specs : List Submission) (clock : Clock)
    (new : ∀ task ∈ specs, task.taskId ∉ (after config events).engine.queue.tasks)
    (distinct : (specs.map Submission.taskId).Nodup) :
    (after config events).engine.AllOrNothing specs clock ↔
      (after config events).engine.queue.maxDepth ≤ (after config events).engine.queue.depth ∨
        ((after config events).engine.queue.depth + specs.length ≤ (after config events).engine.queue.maxDepth ∧
          ∀ task ∈ specs, task.spec.priority < 9223372036854775808) :=
  SchedulerEngine.allOrNothing_iff (after_represented config events) new distinct clock

theorem batch_allOrNothing_sample :
    (after { maxQueueDepth := 2 } []).engine.AllOrNothing [sampleTask "a", sampleTask "b"] (fun _ => 1) :=
  (batch_allOrNothing { maxQueueDepth := 2 } [] [sampleTask "a", sampleTask "b"] (fun _ => 1) (by decide) (by decide)).mpr
    (Or.inr (by decide))

def sampleRanked (id : String) (priority : Int) : Submission :=
  { sampleTask id with spec := { (sampleTask id).spec with priority } }

/-- With room for one task of two, the call raises with the first queued and no row of it. With room for a task whose
priority is too large, it raises with that task queued and no row of it. -/
theorem batch_allOrNothing_fails :
    (¬ (after { maxQueueDepth := 1 } []).engine.AllOrNothing [sampleTask "a", sampleTask "b"] (fun _ => 1) ∧
      ∃ outcome, outcome =
          (after { maxQueueDepth := 1 } []).engine.submitBatch [sampleTask "a", sampleTask "b"] (fun _ => 1) ∧
        "a" ∈ outcome.2.queue.tasks ∧ "a" ∉ outcome.2.store.tasks) ∧
    ¬ (after {} []).engine.AllOrNothing [sampleRanked "a" 9223372036854775808] (fun _ => 1) ∧
      ∃ outcome, outcome =
          (after {} []).engine.submitBatch [sampleRanked "a" 9223372036854775808] (fun _ => 1) ∧
        "a" ∈ outcome.2.queue.tasks ∧ "a" ∉ outcome.2.store.tasks := by
  refine ⟨⟨?_, _, rfl, by decide +kernel, by decide +kernel⟩, ?_, _, rfl, by decide +kernel, by decide +kernel⟩
  · rw [SchedulerEngine.allOrNothing_iff (after_represented _ _) (by decide) (by decide)]
    decide
  · rw [SchedulerEngine.allOrNothing_iff (after_represented _ _) (by decide) (by decide)]
    decide

end System

end TaskRunner
