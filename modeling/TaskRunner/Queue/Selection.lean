import TaskRunner.Queue.Heaps

/-!
What `reserve` picks. Of the entries it may hand to the worker it takes one of the least priority, the oldest of
these first, and but for the entries of cancelled ids it leaves all others where promotion had put them.
-/

namespace TaskRunner
open Base Heapq

namespace InMemoryTaskQueue

/-- An entry that is in a ready heap of the worker once promotion at `now` is done, of a task the worker may be
handed. -/
structure Candidate (q : InMemoryTaskQueue) (worker : WorkerInfo) (completed : Finset String) (now : ℚ)
    (queueName : String) (entry : ReadyEntry) : Prop where
  subscribed : queueName ∈ worker.queues
  listed : entry ∈ q.ready.getD queueName [] ++ q.arrivals now queueName
  live : entry.taskId ∉ q.cancelled
  accepted : ∃ task, q.task? entry.taskId = some task ∧ worker.accepts task = true ∧ task.spec.dependsOn ⊆ completed

/-- The entry taken from the ready heap `queueName`. -/
def takenFrom (taken : Option (String × ReadyEntry)) (queueName : String) : List ReadyEntry :=
  match taken with
  | none => []
  | some (name, entry) => if name = queueName then [entry] else []

/-- The heaps of `r` are those of `p` without the entry taken, and without the entries of cancelled ids in the heaps
the worker subscribes to. -/
structure Swept (p : InMemoryTaskQueue) (worker : WorkerInfo) (taken : Option (String × ReadyEntry))
    (r : InMemoryTaskQueue) : Prop where
  inside : ∀ name ∈ worker.queues,
    (takenFrom taken name ++ r.ready.getD name []).Perm (p.uncancelled (p.ready.getD name []))
  outside : ∀ name ∉ worker.queues, r.ready.getD name [] = p.ready.getD name []
  delayed : r.delayed = p.delayed

/-- Nothing else has changed. -/
structure PassedOver (p : InMemoryTaskQueue) (worker : WorkerInfo) (r : InMemoryTaskQueue) : Prop where
  swept : Swept p worker none r
  rest : r = { p with ready := r.ready }

/-- The task of `entry` is leased to the worker until `deadline`, and nothing else has changed. -/
structure Leased (p : InMemoryTaskQueue) (worker : WorkerInfo) (deadline : ℚ) (queueName : String) (entry : ReadyEntry)
    (task : TaskRef) (r : InMemoryTaskQueue) : Prop where
  swept : Swept p worker (some (queueName, entry)) r
  found : p.tasks.get? entry.taskId = some task
  filed : entry.priority = (p.objects task).spec.priority ∧ entry.createdAt = (p.objects task).createdAt
  rest : r = { p with
    ready := r.ready
    inflight := p.inflight.set entry.taskId task
    objects := Function.update p.objects task { p.objects task with
      status := .running, assignedWorker := some worker.workerId, leaseDeadline := some deadline } }

theorem candidate_iff {q p : InMemoryTaskQueue} {now : ℚ} (promoted : Promoted q now p) (worker : WorkerInfo)
    (completed : Finset String) (queueName : String) (entry : ReadyEntry) :
    q.Candidate worker completed now queueName entry ↔ queueName ∈ worker.queues ∧
      entry ∈ p.uncancelled (p.ready.getD queueName []) ∧ p.eligible worker completed entry := by
  have listed := (promoted.ready queueName).mem_iff (a := entry)
  have same : p.tasks = q.tasks ∧ p.objects = q.objects ∧ p.cancelled = q.cancelled := by
    rw [promoted.rest]
    exact ⟨rfl, rfl, rfl⟩
  rw [mem_uncancelled, listed, eligible, same.1, same.2.1, same.2.2]
  constructor
  · intro candidate
    obtain ⟨task, named, accepts, dependencies⟩ := candidate.accepted
    obtain ⟨ref, found, rfl⟩ := Option.map_eq_some_iff.mp named
    exact ⟨candidate.subscribed, ⟨candidate.listed, candidate.live⟩, ref, found, accepts, dependencies⟩
  · intro given
    obtain ⟨subscribed, ⟨present, live⟩, ref, found, accepts, dependencies⟩ := given
    exact ⟨subscribed, present, live, q.objects ref, by rw [task?, found]; rfl, accepts, dependencies⟩

/-- The order of entries is first that of priority and age. -/
theorem oldest_of_le {entry other : ReadyEntry} (least : entry ≤ other) :
    toLex (entry.priority, entry.createdAt) ≤ toLex (other.priority, other.createdAt) := by
  have key : entry.key ≤ other.key := least
  rw [Prod.Lex.le_iff] at key ⊢
  refine key.imp_right fun tie => ⟨tie.1, ?_⟩
  rcases Prod.Lex.le_iff.mp tie.2 with less | ⟨equal, _⟩
  · exact less.le
  · exact equal.le

theorem Swept.subset {p r : InMemoryTaskQueue} {worker : WorkerInfo} {taken : Option (String × ReadyEntry)}
    (swept : Swept p worker taken r) {queueName : String} {entry : ReadyEntry}
    (present : entry ∈ r.ready.getD queueName []) : entry ∈ p.ready.getD queueName [] := by
  by_cases listed : queueName ∈ worker.queues
  · exact (mem_uncancelled.mp ((swept.inside queueName listed).mem_iff.mp (List.mem_append_right _ present))).1
  · rw [← swept.outside queueName listed]
    exact present

theorem Scanned.swept {p : InMemoryTaskQueue} {worker : WorkerInfo} {ready : Dict String (List ReadyEntry)}
    (scanned : Scanned p worker.queues ready) : Swept p worker none { p with ready } :=
  ⟨scanned.inside, scanned.outside, rfl⟩

theorem Popped.swept {p : InMemoryTaskQueue} {worker : WorkerInfo} {completed : Finset String}
    {ready : Dict String (List ReadyEntry)} {queueName : String} {entry : ReadyEntry} {task : TaskRef}
    {rest : List ReadyEntry} (popped : Popped p worker completed ready queueName entry task rest) :
    Swept p worker (some (queueName, entry)) { p with ready := ready.set queueName rest } := by
  refine ⟨fun name subscribed => ?_, fun name absent => ?_, rfl⟩
  · show (takenFrom (some (queueName, entry)) name ++ (ready.set queueName rest).getD name []).Perm _
    rw [getD_set, takenFrom]
    have inside := popped.scanned.inside name subscribed
    by_cases same : name = queueName
    · subst same
      rw [if_pos rfl, if_pos rfl]
      exact popped.taken.symm.trans inside
    · rw [if_neg same, if_neg (Ne.symm same)]
      exact inside
  · show (ready.set queueName rest).getD name [] = _
    rw [getD_set]
    have different : name ≠ queueName := by
      rintro rfl
      exact absent popped.subscribed
    rw [if_neg different]
    exact popped.scanned.outside name absent

theorem reserve_selection {q : InMemoryTaskQueue} (rep : Represented q) (heaped : Heaped q) (worker : WorkerInfo)
    (completed : Finset String) (leaseSeconds : ℚ) (clock : Clock) :
    ∃ p outcome r, Promoted q (clock 0) p ∧ q.reserve worker completed leaseSeconds clock = (.ok outcome, r) ∧
      (outcome = none ↔ ∀ queueName entry, ¬ q.Candidate worker completed (clock 0) queueName entry) ∧
      (outcome = none → PassedOver p worker r) ∧
      ∀ task, outcome = some task → ∃ queueName entry, q.Candidate worker completed (clock 0) queueName entry ∧
        (∀ name other, q.Candidate worker completed (clock 0) name other → entry ≤ other) ∧
        Leased p worker (clock 1 + leaseSeconds) queueName entry task r := by
  have promoted := promote_promoted rep heaped (clock 0)
  have repPromoted := (promote_settled rep (clock 0)).1
  have candidate := candidate_iff promoted worker completed
  rcases popEligibleLocked_spec repPromoted worker completed with ⟨ready, result, _, scanned, barren⟩ |
      ⟨ready, queueName, entry, task, rest, result, popped⟩
  · refine ⟨_, none, _, promoted, by rw [reserve, result], iff_of_true rfl ?_, ?_, ?_⟩
    · intro name other given
      obtain ⟨subscribed, present, eligible⟩ := (candidate name other).mp given
      exact barren name subscribed other present eligible
    · exact fun _ => ⟨scanned.swept, rfl⟩
    · intro task taken
      cases taken
  · have chosen : q.Candidate worker completed (clock 0) queueName entry :=
      (candidate queueName entry).mpr
        ⟨popped.subscribed, popped.listed, task, popped.found, popped.accepts, popped.dependencies⟩
    refine ⟨_, some task, _, promoted, by rw [reserve, result], iff_of_false (by simp) ?_, ?_, ?_⟩
    · intro none
      exact none queueName entry chosen
    · intro none
      cases none
    · intro other same
      obtain rfl := Option.some.inj same
      refine ⟨queueName, entry, chosen, ?_, ?_⟩
      · intro name other given
        obtain ⟨subscribed, present, eligible⟩ := (candidate name other).mp given
        exact popped.least name subscribed other present eligible
      · obtain ⟨ref, found, _, priority, created, _⟩ :=
          repPromoted.ready queueName entry (mem_uncancelled.mp popped.listed).1
        obtain rfl : ref = task := Option.some.inj (found.symm.trans popped.found)
        have swept := popped.swept
        refine ⟨⟨swept.inside, swept.outside, rfl⟩, found, ⟨priority, created⟩, ?_⟩
        have name := popped.represented.named _ _ found
        simp only [assign, Function.update_self]
        rw [show ((q.promoteDelayedLocked (clock 0)).objects ref).taskId = entry.taskId from name]

/-- In every reachable state a `reserve` returns none exactly when no entry is a candidate. Otherwise it leases the task
of a candidate that is least in priority and age, and takes that one entry. -/
theorem reserve_picks_best (maxDepth : Int) (calls : List Call) (worker : WorkerInfo) (completed : Finset String)
    (leaseSeconds : ℚ) (clock : Clock) :
    ∃ p outcome r, Promoted (runCalls maxDepth calls) (clock 0) p ∧
      (runCalls maxDepth calls).reserve worker completed leaseSeconds clock = (.ok outcome, r) ∧
      (outcome = none ↔
        ∀ queueName entry, ¬ (runCalls maxDepth calls).Candidate worker completed (clock 0) queueName entry) ∧
      (outcome = none → PassedOver p worker r) ∧
      ∀ task, outcome = some task → ∃ queueName entry,
        (runCalls maxDepth calls).Candidate worker completed (clock 0) queueName entry ∧
        (∀ name other, (runCalls maxDepth calls).Candidate worker completed (clock 0) name other →
          toLex (entry.priority, entry.createdAt) ≤ toLex (other.priority, other.createdAt)) ∧
        Leased p worker (clock 1 + leaseSeconds) queueName entry task r := by
  obtain ⟨p, outcome, r, promoted, result, barren, passed, taken⟩ := reserve_selection (runCalls_represented maxDepth calls)
    (runCalls_heaped maxDepth calls) worker completed leaseSeconds clock
  refine ⟨p, outcome, r, promoted, result, barren, passed, fun task same => ?_⟩
  obtain ⟨queueName, entry, candidate, least, leased⟩ := taken task same
  exact ⟨queueName, entry, candidate, fun name other given => oldest_of_le (least name other given), leased⟩

end InMemoryTaskQueue

end TaskRunner
