import TaskRunner.Queue.Calls

/-!
What holds of the queue's containers after every call: the dictionaries name the same objects under
the same ids, every heap entry belongs to a known task and is filed under that task's queue. From it,
no lookup inside a call fails.
-/

namespace TaskRunner
open Base

namespace InMemoryTaskQueue

/-! ### Fields the building blocks leave alone -/

@[simp] theorem assign_tasks (q : InMemoryTaskQueue) (task : TaskRef) (f : TaskEnvelope → TaskEnvelope) :
    (q.assign task f).tasks = q.tasks := rfl

@[simp] theorem assign_inflight (q : InMemoryTaskQueue) (task : TaskRef) (f : TaskEnvelope → TaskEnvelope) :
    (q.assign task f).inflight = q.inflight := rfl

@[simp] theorem assign_deadLetter (q : InMemoryTaskQueue) (task : TaskRef) (f : TaskEnvelope → TaskEnvelope) :
    (q.assign task f).deadLetter = q.deadLetter := rfl

@[simp] theorem assign_ready (q : InMemoryTaskQueue) (task : TaskRef) (f : TaskEnvelope → TaskEnvelope) :
    (q.assign task f).ready = q.ready := rfl

@[simp] theorem assign_delayed (q : InMemoryTaskQueue) (task : TaskRef) (f : TaskEnvelope → TaskEnvelope) :
    (q.assign task f).delayed = q.delayed := rfl

@[simp] theorem assign_cancelled (q : InMemoryTaskQueue) (task : TaskRef) (f : TaskEnvelope → TaskEnvelope) :
    (q.assign task f).cancelled = q.cancelled := rfl

@[simp] theorem assign_maxDepth (q : InMemoryTaskQueue) (task : TaskRef) (f : TaskEnvelope → TaskEnvelope) :
    (q.assign task f).maxDepth = q.maxDepth := rfl

@[simp] theorem assign_sequence (q : InMemoryTaskQueue) (task : TaskRef) (f : TaskEnvelope → TaskEnvelope) :
    (q.assign task f).sequence = q.sequence := rfl

@[simp] theorem assign_allocated (q : InMemoryTaskQueue) (task : TaskRef) (f : TaskEnvelope → TaskEnvelope) :
    (q.assign task f).allocated = q.allocated := rfl

@[simp] theorem assign_self (q : InMemoryTaskQueue) (task : TaskRef) (f : TaskEnvelope → TaskEnvelope) :
    (q.assign task f).objects task = f (q.objects task) := Function.update_self ..

theorem assign_other (q : InMemoryTaskQueue) {task other : TaskRef} (different : other ≠ task)
    (f : TaskEnvelope → TaskEnvelope) : (q.assign task f).objects other = q.objects other :=
  Function.update_of_ne different ..

@[simp] theorem push_tasks (q : InMemoryTaskQueue) (task : TaskRef) (now : ℚ) :
    (q.push task now).tasks = q.tasks := by unfold push; dsimp only; split <;> rfl

@[simp] theorem push_inflight (q : InMemoryTaskQueue) (task : TaskRef) (now : ℚ) :
    (q.push task now).inflight = q.inflight := by unfold push; dsimp only; split <;> rfl

@[simp] theorem push_deadLetter (q : InMemoryTaskQueue) (task : TaskRef) (now : ℚ) :
    (q.push task now).deadLetter = q.deadLetter := by unfold push; dsimp only; split <;> rfl

@[simp] theorem push_cancelled (q : InMemoryTaskQueue) (task : TaskRef) (now : ℚ) :
    (q.push task now).cancelled = q.cancelled := by unfold push; dsimp only; split <;> rfl

@[simp] theorem push_objects (q : InMemoryTaskQueue) (task : TaskRef) (now : ℚ) :
    (q.push task now).objects = q.objects := by unfold push; dsimp only; split <;> rfl

@[simp] theorem push_maxDepth (q : InMemoryTaskQueue) (task : TaskRef) (now : ℚ) :
    (q.push task now).maxDepth = q.maxDepth := by unfold push; dsimp only; split <;> rfl

@[simp] theorem push_allocated (q : InMemoryTaskQueue) (task : TaskRef) (now : ℚ) :
    (q.push task now).allocated = q.allocated := by unfold push; dsimp only; split <;> rfl

/-! ### The invariant -/

/-- An entry of the ready heap `queueName` is what `_push` would file there for its task. -/
def Filed (q : InMemoryTaskQueue) (queueName : String) (entry : ReadyEntry) : Prop :=
  ∃ task, q.tasks.get? entry.taskId = some task ∧ (q.objects task).spec.queue = queueName ∧
    entry.priority = (q.objects task).spec.priority ∧ entry.createdAt = (q.objects task).createdAt ∧
    entry.sequence ≤ q.sequence

structure Represented (q : InMemoryTaskQueue) : Prop where
  named : ∀ id task, q.tasks.get? id = some task → (q.objects task).taskId = id
  allocated : ∀ id task, q.tasks.get? id = some task → task < q.allocated
  inflight : ∀ id task, q.inflight.get? id = some task → q.tasks.get? id = some task
  deadLetter : ∀ id task, q.deadLetter.get? id = some task → q.tasks.get? id = some task
  ready : ∀ queueName, ∀ entry ∈ q.ready.getD queueName [], q.Filed queueName entry
  delayed : ∀ entry ∈ q.delayed, entry.taskId ∈ q.tasks
  cancelled : ∀ id ∈ q.cancelled, id ∈ q.tasks

theorem represented_init (maxDepth : Int) : Represented (init maxDepth) where
  named _ _ h := by simp [init] at h
  allocated _ _ h := by simp [init] at h
  inflight _ _ h := by simp [init] at h
  deadLetter _ _ h := by simp [init] at h
  ready _ _ h := by simp [init, Dict.getD] at h
  delayed _ h := by simp [init] at h
  cancelled _ h := by simp [init] at h

namespace Represented

variable {q : InMemoryTaskQueue}

theorem distinct (rep : Represented q) {id other : String} {task task' : TaskRef}
    (first : q.tasks.get? id = some task) (second : q.tasks.get? other = some task') (different : other ≠ id) :
    task' ≠ task := by
  rintro rfl
  exact different ((rep.named _ _ second).symm.trans (rep.named _ _ first))

theorem inflight_known (rep : Represented q) {id : String} (leased : id ∈ q.inflight) : id ∈ q.tasks := by
  obtain ⟨task, found⟩ := Dict.exists_of_mem leased
  exact Dict.mem_of_get? (rep.inflight id task found)

/-- The lookup of `complete`, `retry` and `ack` finds the task `_tasks` holds. -/
theorem popInflight_fst (rep : Represented q) (id : String) : (q.popInflight id).1 = q.tasks.get? id := by
  unfold popInflight
  cases held : q.inflight.get? id with
  | none => rfl
  | some task => simpa using (rep.inflight id task held).symm

/-- Field assignments that keep a task's id, spec and creation time keep the invariant. -/
theorem assign (rep : Represented q) (task : TaskRef) {f : TaskEnvelope → TaskEnvelope}
    (keeps : (f (q.objects task)).taskId = (q.objects task).taskId ∧
      (f (q.objects task)).spec = (q.objects task).spec ∧
      (f (q.objects task)).createdAt = (q.objects task).createdAt) : Represented (q.assign task f) := by
  have same : ∀ r, ((q.assign task f).objects r).taskId = (q.objects r).taskId ∧
      ((q.assign task f).objects r).spec = (q.objects r).spec ∧
      ((q.assign task f).objects r).createdAt = (q.objects r).createdAt := by
    intro r
    by_cases here : r = task
    · subst here; simpa using keeps
    · simp [assign_other q here]
  refine ⟨fun id r found => (same r).1.trans (rep.named id r found), rep.allocated, rep.inflight,
    rep.deadLetter, ?_, rep.delayed, rep.cancelled⟩
  intro queueName entry member
  obtain ⟨r, found, queue, priority, created, sequence⟩ := rep.ready queueName entry member
  exact ⟨r, found, by rw [(same r).2.1]; exact queue, by rw [(same r).2.1]; exact priority,
    by rw [(same r).2.2]; exact created, sequence⟩

theorem eraseInflight (rep : Represented q) (id : String) :
    Represented { q with inflight := q.inflight.erase id } := by
  refine ⟨rep.named, rep.allocated, ?_, rep.deadLetter, rep.ready, rep.delayed, rep.cancelled⟩
  intro other task found
  rw [Dict.get?_erase] at found
  split at found
  · cases found
  · exact rep.inflight other task found

theorem setInflight (rep : Represented q) {id : String} {task : TaskRef} (known : q.tasks.get? id = some task) :
    Represented { q with inflight := q.inflight.set id task } := by
  refine ⟨rep.named, rep.allocated, ?_, rep.deadLetter, rep.ready, rep.delayed, rep.cancelled⟩
  intro other task' found
  rw [Dict.get?_set] at found
  split at found
  · rename_i same; cases found; rw [same]; exact known
  · exact rep.inflight other task' found

theorem setDeadLetter (rep : Represented q) {id : String} {task : TaskRef} (known : q.tasks.get? id = some task) :
    Represented { q with deadLetter := q.deadLetter.set id task } := by
  refine ⟨rep.named, rep.allocated, rep.inflight, ?_, rep.ready, rep.delayed, rep.cancelled⟩
  intro other task' found
  rw [Dict.get?_set] at found
  split at found
  · rename_i same; cases found; rw [same]; exact known
  · exact rep.deadLetter other task' found

theorem insertCancelled (rep : Represented q) {id : String} (known : id ∈ q.tasks) :
    Represented { q with cancelled := insert id q.cancelled } := by
  refine ⟨rep.named, rep.allocated, rep.inflight, rep.deadLetter, rep.ready, rep.delayed, ?_⟩
  intro other member
  rcases Finset.mem_insert.mp member with same | old
  · rw [same]; exact known
  · exact rep.cancelled other old

theorem setReady (rep : Represented q) (queueName : String) (entries : List ReadyEntry)
    (filed : ∀ entry ∈ entries, q.Filed queueName entry) :
    Represented { q with ready := q.ready.set queueName entries } := by
  refine ⟨rep.named, rep.allocated, rep.inflight, rep.deadLetter, ?_, rep.delayed, rep.cancelled⟩
  intro name entry member
  simp only [Dict.getD, Dict.get?_set] at member
  split at member
  · rename_i same
    rw [same]
    exact filed entry member
  · exact rep.ready name entry member

theorem setDelayed (rep : Represented q) (entries : List DelayedEntry)
    (known : ∀ entry ∈ entries, entry.taskId ∈ q.tasks) : Represented { q with delayed := entries } :=
  ⟨rep.named, rep.allocated, rep.inflight, rep.deadLetter, rep.ready, known, rep.cancelled⟩

theorem raiseSequence (rep : Represented q) : Represented { q with sequence := q.sequence + 1 } := by
  refine ⟨rep.named, rep.allocated, rep.inflight, rep.deadLetter, ?_, rep.delayed, rep.cancelled⟩
  intro queueName entry member
  obtain ⟨task, found, queue, priority, created, sequence⟩ := rep.ready queueName entry member
  exact ⟨task, found, queue, priority, created, Nat.le_succ_of_le sequence⟩

theorem push (rep : Represented q) {id : String} {task : TaskRef} (known : q.tasks.get? id = some task)
    (now : ℚ) : Represented (q.push task now) := by
  have name := rep.named id task known
  have raised := rep.raiseSequence
  unfold InMemoryTaskQueue.push
  dsimp only
  split
  · apply raised.setDelayed _
    intro entry member
    rcases List.mem_cons.mp ((Heapq.heappush_perm _ _).mem_iff.mp member) with rfl | old
    · rw [name]; exact Dict.mem_of_get? known
    · exact rep.delayed entry old
  · apply raised.setReady _ _
    intro entry member
    rcases List.mem_cons.mp ((Heapq.heappush_perm _ _).mem_iff.mp member) with rfl | old
    · exact ⟨task, by rw [name]; exact known, rfl, rfl, rfl, le_refl _⟩
    · exact raised.ready _ entry old

theorem register (rep : Represented q) (task : TaskEnvelope) (new : task.taskId ∉ q.tasks) :
    Represented { (q.allocate task).2 with tasks := q.tasks.set task.taskId q.allocated } := by
  have absent : q.tasks.get? task.taskId = none := (Dict.get?_eq_none _ _).mpr new
  have older : ∀ id r, q.tasks.get? id = some r →
      (q.tasks.set task.taskId q.allocated).get? id = some r ∧
        Function.update q.objects q.allocated task r = q.objects r := by
    intro id r found
    have different : id ≠ task.taskId := by rintro rfl; rw [absent] at found; cases found
    exact ⟨(Dict.get?_set_ne _ different _).trans found,
      Function.update_of_ne (Nat.ne_of_lt (rep.allocated id r found)) _ _⟩
  refine ⟨?_, ?_, ?_, ?_, ?_, ?_, ?_⟩
  · intro id r found
    simp only [allocate, Dict.get?_set] at found ⊢
    split at found
    · rename_i same; cases found; rw [Function.update_self, same]
    · rw [(older id r found).2]; exact rep.named id r found
  · intro id r found
    simp only [allocate, Dict.get?_set] at found ⊢
    split at found
    · cases found; exact Nat.lt_succ_self _
    · exact Nat.lt_succ_of_lt (rep.allocated id r found)
  · exact fun id r found => (older id r (rep.inflight id r found)).1
  · exact fun id r found => (older id r (rep.deadLetter id r found)).1
  · intro queueName entry member
    obtain ⟨r, found, queue, priority, created, sequence⟩ := rep.ready queueName entry member
    obtain ⟨now, same⟩ := older _ _ found
    refine ⟨r, now, ?_, ?_, ?_, sequence⟩ <;> simp only [allocate, same]
    · exact queue
    · exact priority
    · exact created
  · intro entry member
    exact (Dict.mem_set ..).mpr (Or.inr (rep.delayed entry member))
  · intro id member
    exact (Dict.mem_set ..).mpr (Or.inr (rep.cancelled id member))

end Represented

end InMemoryTaskQueue

end TaskRunner
