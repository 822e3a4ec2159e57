import TaskRunner.Queue.Operations

/-!
The entries of all heaps taken together, and what the methods that push add to them.
-/

namespace TaskRunner
open Base

/-- An entry of a ready heap, with the heap it is in, or of the delayed heap. -/
inductive HeapEntry where
  | ready (queueName : String) (entry : ReadyEntry)
  | delayed (entry : DelayedEntry)
  deriving DecidableEq

def HeapEntry.taskId : HeapEntry → String
  | .ready _ entry => entry.taskId
  | .delayed entry => entry.taskId

/-- The entry `_push` files for a task at `now`: due at `available_at`, in the ready heap when that has come. -/
def entryFor (task : TaskEnvelope) (sequence : ℕ) (now : ℚ) : HeapEntry :=
  if task.availableAt > now then .delayed ⟨task.availableAt, sequence, task.taskId⟩
  else .ready task.spec.queue ⟨task.spec.priority, task.createdAt, sequence, task.taskId⟩

theorem entryFor_taskId (task : TaskEnvelope) (sequence : ℕ) (now : ℚ) :
    (entryFor task sequence now).taskId = task.taskId := by
  unfold entryFor
  split <;> rfl

namespace InMemoryTaskQueue

def readyEntries (ready : Dict String (List ReadyEntry)) : List HeapEntry :=
  ready.entries.flatMap fun heap => heap.2.map (.ready heap.1)

def heapEntries (q : InMemoryTaskQueue) : List HeapEntry := readyEntries q.ready ++ q.delayed.map .delayed

def entriesOf (q : InMemoryTaskQueue) (id : String) : List HeapEntry := q.heapEntries.filter fun e => e.taskId = id

theorem mem_readyEntries {ready : Dict String (List ReadyEntry)} {queueName : String} {entry : ReadyEntry} :
    .ready queueName entry ∈ readyEntries ready ↔ entry ∈ ready.getD queueName [] := by
  unfold readyEntries
  rw [List.mem_flatMap]
  constructor
  · intro given
    obtain ⟨⟨name, heap⟩, member, inside⟩ := given
    obtain ⟨other, present, same⟩ := List.mem_map.mp inside
    obtain ⟨rfl, rfl⟩ := HeapEntry.ready.inj same
    rw [Dict.getD, (ready.mem_entries_iff _ _).mp member]
    exact present
  · intro present
    cases found : ready.get? queueName with
    | none =>
      rw [Dict.getD, found] at present
      cases present
    | some heap =>
      rw [Dict.getD, found] at present
      exact ⟨(queueName, heap), (ready.mem_entries_iff _ _).mpr found, List.mem_map_of_mem present⟩

theorem readyEntries_push (ready : Dict String (List ReadyEntry)) (queueName : String) (entry : ReadyEntry) :
    (readyEntries (ready.set queueName (Heapq.heappush (ready.getD queueName []) entry))).Perm
      (.ready queueName entry :: readyEntries ready) := by
  have sum := ready.flatMap_set_perm (fun heap => heap.2.map (HeapEntry.ready heap.1)) queueName
    (Heapq.heappush (ready.getD queueName []) entry)
  have pushed : ((Heapq.heappush (ready.getD queueName []) entry).map (HeapEntry.ready queueName)).Perm
      (.ready queueName entry :: (ready.getD queueName []).map (HeapEntry.ready queueName)) :=
    (Heapq.heappush_perm _ _).map _
  have old : ((ready.get? queueName).map fun heap => heap.map (HeapEntry.ready queueName)).getD [] =
      (ready.getD queueName []).map (HeapEntry.ready queueName) := by
    rw [Dict.getD]
    cases ready.get? queueName <;> rfl
  rw [old] at sum
  apply (List.perm_append_right_iff ((ready.getD queueName []).map (HeapEntry.ready queueName))).mp
  refine sum.trans ((pushed.append_right _).trans ?_)
  exact (List.perm_append_comm).cons _

theorem push_entries (q : InMemoryTaskQueue) (task : TaskRef) (now : ℚ) :
    (q.push task now).heapEntries.Perm (entryFor (q.objects task) (q.sequence + 1) now :: q.heapEntries) := by
  unfold push entryFor heapEntries
  dsimp only
  split
  · exact (((Heapq.heappush_perm _ _).map HeapEntry.delayed).append_left _).trans List.perm_middle
  · exact (readyEntries_push _ _ _).append_right _

theorem push_sequence (q : InMemoryTaskQueue) (task : TaskRef) (now : ℚ) :
    (q.push task now).sequence = q.sequence + 1 := by
  unfold push
  dsimp only
  split <;> rfl

/-- One entry came in: its task has one more, every other task has what it had. -/
theorem entriesOf_cons {q r : InMemoryTaskQueue} {entry : HeapEntry} (perm : r.heapEntries.Perm (entry :: q.heapEntries))
    (id : String) :
    (r.entriesOf id).Perm (if entry.taskId = id then entry :: q.entriesOf id else q.entriesOf id) := by
  apply (perm.filter _).trans
  unfold entriesOf
  by_cases same : entry.taskId = id
  · rw [if_pos same, List.filter_cons_of_pos (by simpa using same)]
  · rw [if_neg same, List.filter_cons_of_neg (by simpa using same)]

/-! ### One more failure -/

/-- The envelope after a failed attempt, when `time()` reads `start`. -/
def failed (task : TaskEnvelope) (reason : String) (start : ℚ) : TaskEnvelope :=
  let t := { task with
    attempts := task.attempts + 1, lastError := some reason, assignedWorker := none, leaseDeadline := none }
  if t.attempts > t.spec.maxRetries then { t with status := .deadLettered }
  else { t with status := .retrying, availableAt := start + t.spec.retryBackoffSeconds * t.attempts }

theorem failed_retried {task : TaskEnvelope} (budget : task.attempts + 1 ≤ task.spec.maxRetries) (reason : String)
    (start : ℚ) : failed task reason start = { task with
      attempts := task.attempts + 1, lastError := some reason, assignedWorker := none, leaseDeadline := none
      status := .retrying
      availableAt := start + task.spec.retryBackoffSeconds * (task.attempts + 1 : Int) } :=
  if_neg (not_lt.mpr budget)

theorem failed_buried {task : TaskEnvelope} (spent : ¬ task.attempts + 1 ≤ task.spec.maxRetries) (reason : String)
    (start : ℚ) : failed task reason start = { task with
      attempts := task.attempts + 1, lastError := some reason, assignedWorker := none, leaseDeadline := none
      status := .deadLettered } :=
  if_pos (not_le.mp spent)

theorem failed_taskId (task : TaskEnvelope) (reason : String) (start : ℚ) :
    (failed task reason start).taskId = task.taskId := by
  unfold failed
  dsimp only
  split <;> rfl

theorem failed_attempts (task : TaskEnvelope) (reason : String) (start : ℚ) :
    (failed task reason start).attempts = task.attempts + 1 := by
  unfold failed
  dsimp only
  split <;> rfl

theorem failed_spec (task : TaskEnvelope) (reason : String) (start : ℚ) :
    (failed task reason start).spec = task.spec := by
  unfold failed
  dsimp only
  split <;> rfl

theorem failed_released (task : TaskEnvelope) (reason : String) (start : ℚ) :
    (failed task reason start).assignedWorker = none ∧ (failed task reason start).leaseDeadline = none := by
  unfold failed
  dsimp only
  split <;> exact ⟨rfl, rfl⟩

/-- What `retry` does to the containers. -/
structure Retried (q : InMemoryTaskQueue) (id : String) (task : TaskRef) (reason : String) (clock : Clock)
    (r : InMemoryTaskQueue) : Prop where
  represented : Represented r
  tasks : r.tasks = q.tasks
  inflight : r.inflight = q.inflight.erase id
  cancelled : r.cancelled = q.cancelled
  maxDepth : r.maxDepth = q.maxDepth
  allocated : r.allocated = q.allocated
  objects : r.objects = Function.update q.objects task (failed (q.objects task) reason (clock 0))
  retrying : (q.objects task).attempts + 1 ≤ (q.objects task).spec.maxRetries →
    r.deadLetter = q.deadLetter ∧ r.sequence = q.sequence + 1 ∧
      r.heapEntries.Perm (entryFor (r.objects task) (q.sequence + 1) (clock 1) :: q.heapEntries)
  buried : ¬ (q.objects task).attempts + 1 ≤ (q.objects task).spec.maxRetries →
    r.deadLetter = q.deadLetter.set id task ∧ r.sequence = q.sequence ∧ r.ready = q.ready ∧ r.delayed = q.delayed

theorem Retried.own {q r : InMemoryTaskQueue} {id : String} {task : TaskRef} {reason : String} {clock : Clock}
    (retried : Retried q id task reason clock r) : r.objects task = failed (q.objects task) reason (clock 0) := by
  rw [retried.objects, Function.update_self]

theorem Retried.other {q r : InMemoryTaskQueue} {id other : String} {task ref : TaskRef} {reason : String} {clock : Clock}
    (retried : Retried q id task reason clock r) (rep : Represented q) (known : q.tasks.get? id = some task)
    (found : q.tasks.get? other = some ref) (different : other ≠ id) : r.objects ref = q.objects ref := by
  rw [retried.objects, Function.update_of_ne (rep.distinct known found different)]

theorem retry_exact {q : InMemoryTaskQueue} (rep : Represented q) {id : String} {task : TaskRef}
    (found : q.tasks.get? id = some task) (reason : String) (clock : Clock) :
    ∃ r, q.retry id reason clock = (.ok task, r) ∧ Retried q id task reason clock r := by
  obtain ⟨r, result, acted⟩ := retry_spec rep found reason clock
  refine ⟨r, result, ?_⟩
  have represented := acted.represented
  have tasks := acted.tasks
  have name := rep.named id task found
  unfold retry at result
  rw [popInflight_known rep found] at result
  simp only [] at result
  split at result
  · rename_i exceeded
    obtain ⟨_, rfl⟩ := Prod.mk.inj result
    rw [assign_self] at exceeded
    have spent : ¬ (q.objects task).attempts + 1 ≤ (q.objects task).spec.maxRetries := not_le.mpr exceeded
    refine ⟨represented, tasks, rfl, rfl, rfl, rfl, ?_, fun budget => (spent budget).elim, fun _ => ⟨?_, rfl, rfl, rfl⟩⟩
    · rw [failed_buried spent]
      simp only [assign, Function.update_self, Function.update_idem]
    · rw [assign_self, ← name]
      rfl
  · rename_i within
    obtain ⟨_, rfl⟩ := Prod.mk.inj result
    rw [assign_self] at within
    have budget : (q.objects task).attempts + 1 ≤ (q.objects task).spec.maxRetries := not_lt.mp within
    refine ⟨represented, tasks, ?_, ?_, ?_, ?_, ?_, fun _ => ⟨?_, ?_, ?_⟩, fun spent => (spent budget).elim⟩
    · rw [push_inflight]; rfl
    · rw [push_cancelled]; rfl
    · rw [push_maxDepth]; rfl
    · rw [push_allocated]; rfl
    · rw [push_objects, failed_retried budget]
      simp only [assign, Function.update_self, Function.update_idem]
    · rw [push_deadLetter]; rfl
    · rw [push_sequence]; rfl
    · rw [push_objects]
      exact push_entries _ _ _

/-! ### Submission -/

/-- The envelope `submit` files, when `time()` reads `now`. -/
def queued (task : Submission) (now : ℚ) : TaskEnvelope :=
  { task.envelope with
    spec := task.envelope.spec.normalized
    status := .queued
    availableAt := now + task.envelope.spec.normalized.delaySeconds }

/-- What a `submit` that is let in does to the containers. -/
structure Admitted (q : InMemoryTaskQueue) (task : Submission) (clock : Clock) (r : InMemoryTaskQueue) : Prop where
  represented : Represented r
  tasks : r.tasks = q.tasks.set task.taskId q.allocated
  objects : r.objects = Function.update q.objects q.allocated (queued task (clock 0))
  entries : r.heapEntries.Perm (entryFor (queued task (clock 0)) (q.sequence + 1) (clock 1) :: q.heapEntries)
  sequence : r.sequence = q.sequence + 1
  allocated : r.allocated = q.allocated + 1
  inflight : r.inflight = q.inflight
  deadLetter : r.deadLetter = q.deadLetter
  cancelled : r.cancelled = q.cancelled
  maxDepth : r.maxDepth = q.maxDepth

theorem Admitted.own {q r : InMemoryTaskQueue} {task : Submission} {clock : Clock} (admitted : Admitted q task clock r) :
    r.objects q.allocated = queued task (clock 0) := by
  rw [admitted.objects, Function.update_self]

theorem Admitted.other {q r : InMemoryTaskQueue} {task : Submission} {clock : Clock} {id : String} {ref : TaskRef}
    (admitted : Admitted q task clock r) (rep : Represented q) (found : q.tasks.get? id = some ref) :
    r.objects ref = q.objects ref := by
  rw [admitted.objects, Function.update_of_ne (Nat.ne_of_lt (rep.allocated id ref found))]

theorem submit_full {q : InMemoryTaskQueue} (full : q.maxDepth ≤ q.depth) (task : TaskEnvelope) (clock : Clock) :
    q.submit task clock = (.error (.queueFull q.depth q.maxDepth), q) := if_pos full

theorem submit_exact {q : InMemoryTaskQueue} (rep : Represented q) (room : q.depth < q.maxDepth) (task : Submission)
    (new : task.taskId ∉ q.tasks) (clock : Clock) :
    ∃ r, q.submit task.envelope clock = (.ok q.allocated, r) ∧ Admitted q task clock r := by
  let registered : InMemoryTaskQueue :=
    { (q.allocate (queued task (clock 0))).2 with tasks := q.tasks.set task.taskId q.allocated }
  have repRegistered : Represented registered := rep.register (queued task (clock 0)) new
  have known : registered.tasks.get? task.taskId = some q.allocated := Dict.get?_set_self ..
  have object : registered.objects q.allocated = queued task (clock 0) := Function.update_self ..
  refine ⟨registered.push q.allocated (clock 1), if_neg (not_le.mpr room), ?_⟩
  refine ⟨repRegistered.push known (clock 1), ?_, ?_, ?_, ?_, ?_, ?_, ?_, ?_, ?_⟩
  · rw [push_tasks]
  · rw [push_objects]
    rfl
  · rw [← object]
    exact push_entries registered q.allocated (clock 1)
  · rw [push_sequence]
    rfl
  · rw [push_allocated]
    rfl
  · rw [push_inflight]
    rfl
  · rw [push_deadLetter]
    rfl
  · rw [push_cancelled]
    rfl
  · rw [push_maxDepth]
    rfl

/-- What a batch that is let in does to the containers: its tasks come after all others, in the order of the batch. -/
structure BatchAdmitted (q : InMemoryTaskQueue) (batch : List Submission) (clock : Clock) (r : InMemoryTaskQueue) :
    Prop where
  represented : Represented r
  keys : r.tasks.keys = q.tasks.keys ++ batch.map Submission.taskId
  named : ∀ i task, batch[i]? = some task →
    r.tasks.get? task.taskId = some (q.allocated + i) ∧ r.objects (q.allocated + i) = queued task (clock (2 * i))
  entries : r.heapEntries.Perm
    (batch.mapIdx (fun i task => entryFor (queued task (clock (2 * i))) (q.sequence + i + 1) (clock (2 * i + 1))) ++
      q.heapEntries)
  older : ∀ id ∈ q.tasks, r.tasks.get? id = q.tasks.get? id
  objects : ∀ ref < q.allocated, r.objects ref = q.objects ref
  inflight : r.inflight = q.inflight
  deadLetter : r.deadLetter = q.deadLetter
  cancelled : r.cancelled = q.cancelled

theorem Admitted.fresh {q r : InMemoryTaskQueue} {task : Submission} {clock : Clock} (admitted : Admitted q task clock r)
    {rest : List Submission} (new : ∀ other ∈ task :: rest, other.taskId ∉ q.tasks)
    (distinct : ((task :: rest).map Submission.taskId).Nodup) : ∀ other ∈ rest, other.taskId ∉ r.tasks :=
  fresh_of_registered admitted.tasks new distinct

theorem Admitted.depth {q r : InMemoryTaskQueue} (rep : Represented q) {task : Submission} {clock : Clock}
    (admitted : Admitted q task clock r) (new : task.taskId ∉ q.tasks) : r.depth = q.depth + 1 := by
  have values : r.tasks.values = q.tasks.values ++ [q.allocated] := by
    rw [admitted.tasks, Dict.values, Dict.entries_set_new new, List.map_append]
    rfl
  have open_ : terminal (r.objects q.allocated).status = false := by
    rw [admitted.own]
    rfl
  have older : ∀ ref ∈ q.tasks.values, terminal (r.objects ref).status = terminal (q.objects ref).status := by
    intro ref member
    obtain ⟨⟨id, _⟩, inside, rfl⟩ := List.mem_map.mp member
    rw [admitted.other rep ((q.tasks.mem_entries_iff _ _).mp inside)]
  unfold InMemoryTaskQueue.depth
  rw [values, List.filter_append, List.filter_congr older, List.filter_cons_of_neg (by rw [open_]; exact Bool.false_ne_true),
    List.filter_nil, List.append_nil, List.length_append, List.length_singleton]
  omega

theorem submitMany_known {q : InMemoryTaskQueue} (batch : List TaskEnvelope) (clock : Clock) {id : String}
    (known : id ∈ q.tasks) : id ∈ (q.submitMany batch clock).2.tasks := by
  induction batch generalizing q clock with
  | nil => exact known
  | cons task rest ih =>
    have first : id ∈ (q.submit task clock).2.tasks := by
      unfold submit
      split
      · exact known
      · dsimp only
        rw [push_tasks]
        exact (Dict.mem_set ..).mpr (Or.inr known)
    unfold submitMany
    split <;> rename_i result <;> rw [result] at first
    · exact first
    · have later := ih (clock.later 2) first
      split <;> rename_i result' <;> rw [result'] at later <;> exact later

/-- There is room for the whole batch. -/
theorem submitMany_fits {q : InMemoryTaskQueue} (rep : Represented q) (batch : List Submission)
    (new : ∀ task ∈ batch, task.taskId ∉ q.tasks) (distinct : (batch.map Submission.taskId).Nodup) (clock : Clock)
    (room : q.depth + batch.length ≤ q.maxDepth) :
    ∃ r, q.submitMany (batch.map Submission.envelope) clock = (.ok (List.range' q.allocated batch.length), r) ∧
      BatchAdmitted q batch clock r := by
  induction batch generalizing q clock with
  | nil =>
    refine ⟨q, rfl, rep, (List.append_nil _).symm, fun i task found => ?_, List.Perm.refl _, fun _ _ => rfl,
      fun _ _ => rfl, rfl, rfl, rfl⟩
    cases found
  | cons task rest ih =>
    rw [List.length_cons] at room
    have here := new task List.mem_cons_self
    obtain ⟨r, first, admitted⟩ := submit_exact rep (by omega) task here clock
    have depth := admitted.depth rep here
    have fresh := admitted.fresh new distinct
    obtain ⟨s, later, batched⟩ := ih admitted.represented fresh (List.nodup_cons.mp distinct).2 (clock.later 2)
      (by rw [depth, admitted.maxDepth]; omega)
    refine ⟨s, ?_, batched.represented, ?_, ?_, ?_, ?_, ?_, batched.inflight.trans admitted.inflight,
      batched.deadLetter.trans admitted.deadLetter, batched.cancelled.trans admitted.cancelled⟩
    · rw [List.map_cons, submitMany, first]
      simp only [later, admitted.allocated]
      rfl
    · rw [batched.keys, admitted.tasks, Dict.keys, Dict.entries_set_new here, List.map_append, List.append_assoc]
      rfl
    · intro i other position
      cases i with
      | zero =>
        obtain rfl := Option.some.inj position
        have known : r.tasks.get? task.taskId = some q.allocated := by rw [admitted.tasks, Dict.get?_set_self]
        refine ⟨(batched.older _ (Dict.mem_of_get? known)).trans known, ?_⟩
        rw [Nat.add_zero, batched.objects _ (by rw [admitted.allocated]; omega), admitted.objects, Function.update_self]
      | succ i =>
        rw [List.getElem?_cons_succ] at position
        have named := batched.named i other position
        simp only [admitted.allocated, Clock.later, show 2 + 2 * i = 2 * (i + 1) by omega,
          show q.allocated + 1 + i = q.allocated + (i + 1) by omega] at named
        exact named
    · have entries := batched.entries
      rw [List.mapIdx_cons, List.cons_append]
      refine entries.trans ((admitted.entries.append_left _).trans (List.perm_middle.trans (List.Perm.cons _ ?_)))
      refine List.Perm.append_right _ (List.Perm.of_eq (List.mapIdx_eq_mapIdx_iff.mpr ?_))
      intro i inside
      simp only [admitted.sequence, Clock.later, show 2 + 2 * i = 2 * (i + 1) by omega,
        show 2 + (2 * i + 1) = 2 * (i + 1) + 1 by omega, show q.sequence + 1 + i = q.sequence + (i + 1) by omega]
    · intro id known
      have different : id ≠ task.taskId := by
        rintro rfl
        exact here known
      rw [batched.older id (by rw [admitted.tasks, Dict.mem_set]; exact Or.inr known), admitted.tasks,
        Dict.get?_set_ne _ different]
    · intro ref below
      rw [batched.objects ref (by rw [admitted.allocated]; omega), admitted.objects,
        Function.update_of_ne (Nat.ne_of_lt below)]

/-- There is room for a part of the batch: that part is in the queue when the call raises. -/
theorem submitMany_overflows {q : InMemoryTaskQueue} (rep : Represented q) (task : Submission) (rest : List Submission)
    (new : ∀ other ∈ task :: rest, other.taskId ∉ q.tasks) (distinct : ((task :: rest).map Submission.taskId).Nodup)
    (clock : Clock) (room : q.depth < q.maxDepth) (tight : q.maxDepth < q.depth + (task :: rest).length) :
    ∃ error r, q.submitMany ((task :: rest).map Submission.envelope) clock = (.error error, r) ∧
      task.taskId ∈ r.tasks := by
  induction rest generalizing q task clock with
  | nil =>
    rw [List.length_singleton] at tight
    omega
  | cons next rest ih =>
    have here := new task List.mem_cons_self
    obtain ⟨r, first, admitted⟩ := submit_exact rep room task here clock
    have depth := admitted.depth rep here
    have known : task.taskId ∈ r.tasks := by rw [admitted.tasks, Dict.mem_set]; exact Or.inl rfl
    have fresh := admitted.fresh new distinct
    rw [List.map_cons, submitMany, first]
    by_cases full : r.maxDepth ≤ r.depth
    · have refused : r.submitMany ((next :: rest).map Submission.envelope) (clock.later 2) =
          (.error (.queueFull r.depth r.maxDepth), r) := by
        rw [List.map_cons, submitMany, submit_full full]
      exact ⟨.queueFull r.depth r.maxDepth, r, by simp only [refused], known⟩
    · obtain ⟨error, s, later, _⟩ := ih admitted.represented next fresh (List.nodup_cons.mp distinct).2 (clock.later 2)
        (not_le.mp full) (by
          rw [depth, admitted.maxDepth]
          simp only [List.length_cons] at tight ⊢
          omega)
      refine ⟨error, s, by simp only [later], ?_⟩
      have kept := submitMany_known ((next :: rest).map Submission.envelope) (clock.later 2) known
      rw [later] at kept
      exact kept

end InMemoryTaskQueue

end TaskRunner
