import TaskRunner.Queue.Dispatchability

/-!
Who goes first of two tasks that only the order of their submission tells apart. The sequence number settles it as long
as the entry keeps the one `_push` gave it; promotion files the entry under the number the queue has come to since.
-/

namespace TaskRunner
open Base

/-- The two tasks are filed alike, and neither was retried. -/
def Tied (first second : TaskEnvelope) : Prop :=
  first.spec.queue = second.spec.queue ∧ first.spec.priority = second.spec.priority ∧
    first.createdAt = second.createdAt ∧ first.spec.affinity = second.spec.affinity ∧
    first.spec.dependsOn = second.spec.dependsOn ∧ first.attempts = 0 ∧ second.attempts = 0

instance (first second : TaskEnvelope) : Decidable (Tied first second) := inferInstanceAs (Decidable (_ ∧ _))

theorem Tied.accepts {first second : TaskEnvelope} (tied : Tied first second) {worker : WorkerInfo}
    (accepts : worker.accepts second = true) : worker.accepts first = true := by
  obtain ⟨queue, _, _, affinity, _⟩ := tied
  rw [WorkerInfo.accepts_iff] at accepts ⊢
  rw [queue, affinity]
  exact accepts

/-- Of two entries of the same priority and age the sequence numbers decide, and then the ids. -/
theorem ReadyEntry.lt_of_tie {entry other : ReadyEntry} (priority : entry.priority = other.priority)
    (created : entry.createdAt = other.createdAt)
    (earlier : entry.sequence < other.sequence ∨ entry.sequence = other.sequence ∧ entry.taskId < other.taskId) :
    entry < other := by
  show entry.key < other.key
  refine Prod.Lex.lt_iff.mpr (Or.inr ⟨priority, Prod.Lex.lt_iff.mpr (Or.inr ⟨created, ?_⟩)⟩)
  exact Prod.Lex.lt_iff.mpr earlier

namespace InMemoryTaskQueue

/-- `first` was submitted before `second`, whose object is the newer one, nothing else tells the two apart, and neither
was cancelled. -/
def TiedBefore (q : InMemoryTaskQueue) (first second : String) : Prop :=
  ∃ task ∈ q.tasks.get? first, ∃ task' ∈ q.tasks.get? second, task < task' ∧ Tied (q.objects task) (q.objects task') ∧
    first ∉ q.cancelled ∧ second ∉ q.cancelled

instance (q : InMemoryTaskQueue) (first second : String) : Decidable (q.TiedBefore first second) :=
  inferInstanceAs (Decidable (∃ task ∈ q.tasks.get? first, ∃ task' ∈ q.tasks.get? second, task < task' ∧
    Tied (q.objects task) (q.objects task') ∧ first ∉ q.cancelled ∧ second ∉ q.cancelled))

/-- The task has been submitted and not dispatched, and is available at `now`. -/
def Due (q : InMemoryTaskQueue) (id : String) (now : ℚ) : Prop :=
  ∃ task ∈ q.task? id, task.status = .queued ∧ task.availableAt ≤ now

instance (q : InMemoryTaskQueue) (id : String) (now : ℚ) : Decidable (q.Due id now) :=
  inferInstanceAs (Decidable (∃ task ∈ q.task? id, task.status = .queued ∧ task.availableAt ≤ now))

/-- No task that is due waits at `now` that was submitted before `second` and is otherwise alike. -/
def FirstSubmitted (q : InMemoryTaskQueue) (second : String) (now : ℚ) : Prop :=
  ∀ first ∈ q.tasks.keys, q.TiedBefore first second → ¬ q.Due first now

instance (q : InMemoryTaskQueue) (second : String) (now : ℚ) : Decidable (q.FirstSubmitted second now) :=
  inferInstanceAs (Decidable (∀ first ∈ q.tasks.keys, q.TiedBefore first second → ¬ q.Due first now))

/-! ### The condition -/

/-- The entry is due at `now`, and promotion files it in a ready heap. -/
def Moves (q : InMemoryTaskQueue) (now : ℚ) (moved : DelayedEntry) : Prop :=
  moved.availableAt ≤ now ∧ ∃ task ∈ q.task? moved.taskId, Promotable task

instance (q : InMemoryTaskQueue) (now : ℚ) (moved : DelayedEntry) : Decidable (q.Moves now moved) :=
  inferInstanceAs (Decidable (_ ∧ ∃ task ∈ q.task? moved.taskId, Promotable task))

/-- An entry that moves at `now` may belong before one that is in a ready heap already only when no task was pushed
since that one and its id comes first, after it only when a task was pushed since or the ids say so, and before another
that moves only when the ids say so. -/
def PromotesInOrder (q : InMemoryTaskQueue) (now : ℚ) : Prop :=
  ∀ moved ∈ q.delayed, q.Moves now moved →
    (∀ heap ∈ q.ready.values, ∀ entry ∈ heap,
      (q.TiedBefore moved.taskId entry.taskId → q.sequence = entry.sequence ∧ moved.taskId < entry.taskId) ∧
      (q.TiedBefore entry.taskId moved.taskId → entry.sequence < q.sequence ∨ entry.taskId < moved.taskId)) ∧
    ∀ other ∈ q.delayed, q.Moves now other → q.TiedBefore moved.taskId other.taskId → moved.taskId < other.taskId

instance (q : InMemoryTaskQueue) (now : ℚ) : Decidable (q.PromotesInOrder now) :=
  inferInstanceAs (Decidable (∀ moved ∈ q.delayed, q.Moves now moved →
    (∀ heap ∈ q.ready.values, ∀ entry ∈ heap,
      (q.TiedBefore moved.taskId entry.taskId → q.sequence = entry.sequence ∧ moved.taskId < entry.taskId) ∧
      (q.TiedBefore entry.taskId moved.taskId → entry.sequence < q.sequence ∨ entry.taskId < moved.taskId)) ∧
    ∀ other ∈ q.delayed, q.Moves now other → q.TiedBefore moved.taskId other.taskId → moved.taskId < other.taskId))

/-! ### Ready entries are in the order of submission -/

/-- The entries of two tasks that only their submission tells apart stand in its order. -/
structure Ordered (q : InMemoryTaskQueue) : Prop where
  counted : ∀ id task, q.tasks.get? id = some task → 0 ≤ (q.objects task).attempts
  before : ∀ {name name' : String} {entry entry' : ReadyEntry}, entry ∈ q.ready.getD name [] →
    entry' ∈ q.ready.getD name' [] → q.TiedBefore entry.taskId entry'.taskId → entry < entry'

variable {q r : InMemoryTaskQueue}

theorem ordered_init (maxDepth : Int) : Ordered (init maxDepth) := by
  constructor
  · intro id task found
    cases found
  · intro name name' entry entry' member
    cases member

/-- What tied two tasks in `r` tied them in `q`. -/
theorem TiedBefore.back {first second : String} (tied : r.TiedBefore first second) (more : q.cancelled ⊆ r.cancelled)
    (found : ∀ id ∈ [first, second], ∀ task, r.tasks.get? id = some task → q.tasks.get? id = some task ∧
      (r.objects task).spec = (q.objects task).spec ∧ (r.objects task).createdAt = (q.objects task).createdAt ∧
      (r.objects task).attempts = (q.objects task).attempts) : q.TiedBefore first second := by
  obtain ⟨task, known, task', known', newer, alike, live, live'⟩ := tied
  obtain ⟨here, spec, created, attempts⟩ := found first (by simp) task known
  obtain ⟨here', spec', created', attempts'⟩ := found second (by simp) task' known'
  refine ⟨task, here, task', here', newer, ?_, fun marked => live (more marked), fun marked => live' (more marked)⟩
  unfold Tied at alike ⊢
  rw [spec, spec', created, created', attempts, attempts'] at alike
  exact alike

theorem TiedBefore.filed {first second : String} (tied : q.TiedBefore first second) {task task' : TaskEnvelope}
    (named : q.task? first = some task) (named' : q.task? second = some task') : Tied task task' := by
  obtain ⟨ref, known, ref', known', _, alike, _⟩ := tied
  rw [task?, show q.tasks.get? first = some ref from known, Option.map_some, Option.some.injEq] at named
  rw [task?, show q.tasks.get? second = some ref' from known', Option.map_some, Option.some.injEq] at named'
  rw [← named, ← named']
  exact alike

theorem mem_ready_iff {queueName : String} {entry : ReadyEntry} :
    entry ∈ q.ready.getD queueName [] ↔ .ready queueName entry ∈ q.heapEntries := by
  unfold heapEntries
  rw [List.mem_append, mem_readyEntries]
  refine (or_iff_left fun given => ?_).symm
  obtain ⟨_, _, other⟩ := List.mem_map.mp given
  cases other

/-- An entry that came in is the one `_push` filed, or it was there. -/
theorem mem_ready_cons {task : TaskEnvelope} {sequence : ℕ} {now : ℚ}
    (entries : r.heapEntries.Perm (entryFor task sequence now :: q.heapEntries)) {queueName : String}
    {entry : ReadyEntry} (member : entry ∈ r.ready.getD queueName []) :
    entry ∈ q.ready.getD queueName [] ∨ entry = ⟨task.spec.priority, task.createdAt, sequence, task.taskId⟩ := by
  rw [mem_ready_iff, entries.mem_iff, List.mem_cons, ← mem_ready_iff] at member
  rcases member with same | old
  · right
    unfold entryFor at same
    split at same
    · cases same
    · exact (HeapEntry.ready.inj same).2
  · exact Or.inl old

theorem Represented.ready_found (rep : Represented q) {queueName : String} {entry : ReadyEntry}
    (member : entry ∈ q.ready.getD queueName []) : ∃ task, q.tasks.get? entry.taskId = some task ∧
      entry.priority = (q.objects task).spec.priority ∧ entry.createdAt = (q.objects task).createdAt ∧
      entry.sequence ≤ q.sequence := by
  obtain ⟨task, found, _, rest⟩ := rep.ready queueName entry member
  exact ⟨task, found, rest⟩

theorem Admitted.ordered {task : Submission} {clock : Clock} (rep : Represented q) (new : task.taskId ∉ q.tasks)
    (admitted : Admitted q task clock r) (ordered : Ordered q) : Ordered r := by
  have older : ∀ id ∈ q.tasks, ∀ ref, r.tasks.get? id = some ref → q.tasks.get? id = some ref ∧
      r.objects ref = q.objects ref := by
    intro id known ref found
    have different : id ≠ task.taskId := by
      rintro rfl
      exact new known
    rw [admitted.tasks, Dict.get?_set_ne _ different] at found
    exact ⟨found, admitted.other rep found⟩
  have own : r.tasks.get? task.taskId = some q.allocated := by rw [admitted.tasks, Dict.get?_set_self]
  constructor
  · intro id ref found
    by_cases known : id ∈ q.tasks
    · obtain ⟨there, same⟩ := older id known ref found
      rw [same]
      exact ordered.counted id ref there
    · rw [admitted.tasks, Dict.get?_set] at found
      split at found
      · obtain rfl := Option.some.inj found
        rw [admitted.own]
        exact le_refl _
      · exact (known (Dict.mem_of_get? found)).elim
  · intro name name' entry entry' member member' tied
    obtain ⟨ref, known, ref', known', newer, alike, _⟩ := id tied
    rcases mem_ready_cons admitted.entries member with old | fresh
    · obtain ⟨before, found, priority, created, sequence⟩ := rep.ready_found old
      have there := Dict.mem_of_get? found
      rcases mem_ready_cons admitted.entries member' with old' | fresh'
      · obtain ⟨after, found', _⟩ := rep.ready_found old'
        have there' := Dict.mem_of_get? found'
        refine ordered.before old old' (tied.back (by rw [admitted.cancelled]) fun id listed task found => ?_)
        have inside : id ∈ q.tasks := by
          rcases List.mem_pair.mp listed with rfl | rfl
          · exact there
          · exact there'
        obtain ⟨back, same⟩ := older id inside task found
        exact ⟨back, by rw [same], by rw [same], by rw [same]⟩
      · -- the number of the newcomer is greater than any before
        obtain ⟨_, same⟩ := older _ there ref known
        obtain rfl : before = ref := Option.some.inj (found.symm.trans (older _ there ref known).1)
        have last : r.objects ref' = queued task (clock 0) := by
          have found' : r.tasks.get? entry'.taskId = some q.allocated := by rw [fresh']; exact own
          obtain rfl : ref' = q.allocated := Option.some.inj ((show _ = some ref' from known').symm.trans found')
          exact admitted.own
        obtain ⟨_, equal, age, _⟩ := alike
        rw [same, last] at equal age
        refine ReadyEntry.lt_of_tie ?_ ?_ (Or.inl ?_)
        · rw [priority, equal, fresh']
        · rw [created, age, fresh']
        · rw [fresh']
          exact Nat.lt_succ_of_le sequence
    · -- nothing is newer than the newcomer
      have here : ref = q.allocated := Option.some.inj ((show _ = some ref from known).symm.trans (by rw [fresh]; exact own))
      have bound := admitted.represented.allocated _ ref' known'
      rw [admitted.allocated] at bound
      rw [here] at newer
      exact absurd newer (not_lt.mpr (Nat.le_of_lt_succ bound))

theorem Retried.ordered {id : String} {task : TaskRef} {reason : String} {clock : Clock} (rep : Represented q)
    (known : q.tasks.get? id = some task) (retried : Retried q id task reason clock r) (ordered : Ordered q) :
    Ordered r := by
  have own : (r.objects task).attempts = (q.objects task).attempts + 1 := by
    rw [retried.own, failed_attempts]
  have once := ordered.counted id task known
  constructor
  · intro other ref found
    rw [retried.tasks] at found
    by_cases same : other = id
    · subst same
      obtain rfl : task = ref := Option.some.inj (known.symm.trans found)
      rw [own]
      omega
    · rw [retried.other rep known found same]
      exact ordered.counted other ref found
  · intro name name' entry entry' member member' tied
    -- the retried task is tied with none any more
    have untied : ∀ other ∈ [entry.taskId, entry'.taskId], other ≠ id := by
      rintro other listed rfl
      obtain ⟨ref, found, ref', found', _, ⟨_, _, _, _, _, zero, zero'⟩, _⟩ := tied
      rw [Option.mem_def, retried.tasks] at found found'
      rcases List.mem_pair.mp listed with rfl | rfl
      · obtain rfl : task = ref := Option.some.inj (known.symm.trans found)
        omega
      · obtain rfl : task = ref' := Option.some.inj (known.symm.trans found')
        omega
    have old : ∀ {queueName : String} {other : ReadyEntry}, other ∈ r.ready.getD queueName [] → other.taskId ≠ id →
        other ∈ q.ready.getD queueName [] := by
      intro queueName other there different
      by_cases budget : (q.objects task).attempts + 1 ≤ (q.objects task).spec.maxRetries
      · refine (mem_ready_cons (retried.retrying budget).2.2 there).resolve_right fun same => different ?_
        rw [same]
        show (r.objects task).taskId = id
        rw [retried.own, failed_taskId, rep.named id task known]
      · rw [← (retried.buried budget).2.2.1]
        exact there
    apply ordered.before (old member (untied _ (by simp))) (old member' (untied _ (by simp)))
    apply tied.back (by rw [retried.cancelled])
    intro other listed ref found
    rw [retried.tasks] at found
    rw [retried.other rep known found (untied other listed)]
    exact ⟨found, rfl, rfl, rfl⟩

theorem Annotated.tied (annotated : Annotated q r) {first second : String} (tied : r.TiedBefore first second) :
    q.TiedBefore first second := by
  apply tied.back annotated.cancelled
  intro id _ task found
  rw [annotated.tasks] at found
  obtain ⟨spec, created, _, attempts⟩ := annotated.filed task
  exact ⟨found, spec, created, attempts⟩

theorem Annotated.counted (annotated : Annotated q r) (ordered : Ordered q) (id : String) (task : TaskRef)
    (found : r.tasks.get? id = some task) : 0 ≤ (r.objects task).attempts := by
  rw [annotated.tasks] at found
  rw [(annotated.filed task).2.2.2]
  exact ordered.counted id task found

/-- The entry a promotion files is made from the task and the present sequence number. -/
theorem mem_arrivals {now : ℚ} {queueName : String} {entry : ReadyEntry} (arrives : entry ∈ q.arrivals now queueName) :
    ∃ moved ∈ q.delayed, q.Moves now moved ∧ entry.taskId = moved.taskId ∧ entry.sequence = q.sequence ∧
      ∃ task, q.task? entry.taskId = some task ∧ entry.priority = task.spec.priority ∧ entry.createdAt = task.createdAt := by
  obtain ⟨moved, member, made⟩ := List.mem_filterMap.mp arrives
  unfold arrival at made
  split at made
  · rename_i due
    cases known : q.task? moved.taskId with
    | none =>
      rw [known] at made
      cases made
    | some task =>
      simp only [known] at made
      split at made
      · rename_i promotable
        obtain rfl := Option.some.inj made
        exact ⟨moved, member, ⟨due, task, known, promotable.1⟩, rfl, rfl, task, known, rfl, rfl⟩
      · cases made
  · cases made

/-- An entry of the promoted queue was in the heap, or it was delayed and due. -/
theorem Promoted.origin {p : InMemoryTaskQueue} {now : ℚ} (rep : Represented q) (promoted : Promoted q now p)
    {queueName : String} {entry : ReadyEntry} (member : entry ∈ p.ready.getD queueName []) :
    (∃ task, q.task? entry.taskId = some task ∧ entry.priority = task.spec.priority ∧
      entry.createdAt = task.createdAt) ∧
    (entry ∈ q.ready.getD queueName [] ∧ entry.sequence ≤ q.sequence ∨
      entry.sequence = q.sequence ∧ ∃ moved ∈ q.delayed, q.Moves now moved ∧ moved.taskId = entry.taskId) := by
  rcases List.mem_append.mp ((promoted.ready queueName).mem_iff.mp member) with old | arrived
  · obtain ⟨task, found, priority, created, sequence⟩ := rep.ready_found old
    exact ⟨⟨_, by rw [task?, found]; rfl, priority, created⟩, Or.inl ⟨old, sequence⟩⟩
  · obtain ⟨moved, there, moves, name, sequence, task, named, priority, created⟩ := mem_arrivals arrived
    exact ⟨⟨task, named, priority, created⟩, Or.inr ⟨sequence, moved, there, moves, name.symm⟩⟩

theorem Promoted.ordered {p : InMemoryTaskQueue} {now : ℚ} (rep : Represented q) (promoted : Promoted q now p)
    (inOrder : q.PromotesInOrder now) (ordered : Ordered q) : Ordered p := by
  have same : p.tasks = q.tasks ∧ p.objects = q.objects ∧ p.cancelled = q.cancelled := by
    rw [promoted.rest]
    exact ⟨rfl, rfl, rfl⟩
  obtain ⟨tasks, objects, cancelled⟩ := same
  refine ⟨by rw [tasks, objects]; exact ordered.counted, ?_⟩
  intro name name' entry entry' member member' tied
  have tied : q.TiedBefore entry.taskId entry'.taskId := by
    unfold TiedBefore at tied ⊢
    rw [tasks, objects, cancelled] at tied
    exact tied
  obtain ⟨⟨task, named, priority, created⟩, origin⟩ := promoted.origin rep member
  obtain ⟨⟨task', named', priority', created'⟩, origin'⟩ := promoted.origin rep member'
  obtain ⟨_, equal, age, _⟩ := tied.filed named named'
  have alike : entry.priority = entry'.priority ∧ entry.createdAt = entry'.createdAt := by
    rw [priority, priority', created, created']
    exact ⟨equal, age⟩
  have listed : ∀ {queueName : String} {other : ReadyEntry}, other ∈ q.ready.getD queueName [] →
      ∃ heap ∈ q.ready.values, other ∈ heap := by
    intro queueName other there
    cases found : q.ready.get? queueName with
    | none =>
      rw [Dict.getD, found] at there
      cases there
    | some heap =>
      rw [Dict.getD, found] at there
      exact ⟨heap, List.mem_map_of_mem (f := Prod.snd) ((q.ready.mem_entries_iff _ _).mpr found), there⟩
  rcases origin with ⟨old, bound⟩ | ⟨sequence, moved, there, moves, name⟩
  · rcases origin' with ⟨old', _⟩ | ⟨sequence', moved', there', moves', name'⟩
    · exact ordered.before old old' tied
    · obtain ⟨heap, inside, present⟩ := listed old
      have settled := ((inOrder moved' there' moves').1 heap inside entry present).2
      rw [name'] at settled
      apply ReadyEntry.lt_of_tie alike.1 alike.2
      rw [sequence']
      rcases settled tied with less | ids
      · exact Or.inl less
      · exact (Nat.lt_or_eq_of_le bound).imp_right fun equal => ⟨equal, ids⟩
  · rcases origin' with ⟨old', _⟩ | ⟨sequence', moved', there', moves', name'⟩
    · obtain ⟨heap, inside, present⟩ := listed old'
      have settled := ((inOrder moved there moves).1 heap inside entry' present).1
      rw [name] at settled
      obtain ⟨equal, ids⟩ := settled tied
      exact ReadyEntry.lt_of_tie alike.1 alike.2 (Or.inr ⟨sequence.trans equal, ids⟩)
    · have settled := (inOrder moved there moves).2 moved' there' moves'
      rw [name, name'] at settled
      exact ReadyEntry.lt_of_tie alike.1 alike.2 (Or.inr ⟨sequence.trans sequence'.symm, settled tied⟩)

theorem kept_ordered : Kept Ordered PromotesInOrder where
  admitted rep new admitted ordered := admitted.ordered rep new ordered
  retried rep known retried ordered := retried.ordered rep known ordered
  annotated := by
    intro q r annotated ready _ ordered
    refine ⟨annotated.counted ordered, fun member member' tied => ?_⟩
    rw [ready] at member member'
    exact ordered.before member member' (annotated.tied tied)
  promoted rep promoted inOrder ordered := promoted.ordered rep inOrder ordered
  swept := by
    intro p r worker taken annotated swept _ ordered
    refine ⟨annotated.counted ordered, fun member member' tied => ?_⟩
    exact ordered.before (swept.subset member) (swept.subset member') (annotated.tied tied)

/-! ### Dispatch -/

/-- In an ordered queue that promotes in order, what is handed out was submitted before all that is alike and due. -/
theorem handed_first (rep : Represented q) (heaped : Heaped q) (awaited : Awaited q) (ordered : Ordered q)
    {worker : WorkerInfo} {completed : Finset String} {leaseSeconds : ℚ} {clock : Clock}
    (inOrder : q.PromotesInOrder (clock 0)) {second : String}
    (handed : q.handed (.reserve worker completed leaseSeconds clock) = some second) :
    q.FirstSubmitted second (clock 0) := by
  intro first _ tied due
  obtain ⟨task, named, status, available⟩ := due
  obtain ⟨p, outcome, r, promoted, result, _, _, taken⟩ :=
    reserve_selection rep heaped worker completed leaseSeconds clock
  cases outcome with
  | none =>
    rw [handed_none result] at handed
    cases handed
  | some ref =>
    obtain ⟨queueName, entry, chosen, least, leased⟩ := taken ref rfl
    rw [leased.handed rep promoted result, Option.some.injEq] at handed
    subst handed
    obtain ⟨task', named', accepts, dependencies⟩ := chosen.accepted
    have alike := tied.filed named named'
    obtain ⟨_, _, _, _, _, _, live, _⟩ := id tied
    have waits : task.status.waits = true := by rw [status]; rfl
    have opens : q.Opens first (clock 0) := (awaited first task named waits live).imp_right fun given => by
      obtain ⟨other, member, own, before⟩ := given
      exact ⟨other, member, own, before.trans available⟩
    have satisfied : task.spec.dependsOn ⊆ completed := by
      rw [alike.2.2.2.2.1]
      exact dependencies
    obtain ⟨name, own, candidate, rfl⟩ :=
      candidate_of_opens rep named live (promotable_of_waits waits) opens (alike.accepts accepts) satisfied
    -- the entry of the first stands before the one that was chosen as least
    have before : own < entry := by
      refine (promoted.ordered rep inOrder ordered).before ((promoted.ready name).mem_iff.mpr candidate.listed)
        ((promoted.ready queueName).mem_iff.mpr chosen.listed) ?_
      unfold TiedBefore at tied ⊢
      rw [promoted.rest]
      exact tied
    exact absurd (least name own candidate) (not_le.mpr before)

/-- In a run whose promotions are all in order, no task is handed out while one is due that was submitted before it and
is otherwise alike. -/
theorem run_first (maxDepth : Int) {calls : List Call}
    (inOrder : Machine.Along step (fun q call => ∀ now ∈ call.promotes, q.PromotesInOrder now) (init maxDepth) calls) :
    Machine.Along step (fun q call => ∀ second ∈ q.handed call, ∀ clock ∈ call.clock,
      q.FirstSubmitted second (clock 0)) (init maxDepth) calls := by
  refine Machine.along_of_invariant (I := fun q => Represented q ∧ Heaped q ∧ Awaited q ∧ Ordered q) ?_ ?_
    ⟨represented_init maxDepth, heaped_init maxDepth, awaited_init maxDepth, ordered_init maxDepth⟩ inOrder
  · intro q call held met
    obtain ⟨rep, heaped, awaited, ordered⟩ := held
    exact ⟨step_represented rep call, step_heaped heaped call,
      kept_awaited.step rep heaped call (fun _ _ => trivial) awaited, kept_ordered.step rep heaped call met ordered⟩
  · intro q call held met second handed clock read
    obtain ⟨rep, heaped, awaited, ordered⟩ := held
    cases call with
    | reserve worker completed leaseSeconds readings =>
      obtain rfl := Option.some.inj read
      exact handed_first rep heaped awaited ordered (met _ rfl) handed
    | _ => cases handed

end InMemoryTaskQueue

end TaskRunner
