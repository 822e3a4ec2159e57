import TaskRunner.Queue.Scanning

/-!
One pass of `reserve`, taken apart. The lock keeps other calls out of the queue, but not the event loop from what the
tests read, so each entry is tested against the worker and the completed set as they are at its turn.
-/

namespace TaskRunner
open Base InMemoryTaskQueue

/-- Where the scan of `_pop_eligible_locked` stands: before the heaps that are left, or inside one of them. -/
inductive Scan where
  | heaps (names : List String) (candidates : List (ReadyEntry × String))
  | drains (queueName : String) (names : List String) (drain : Drain)

def Scan.candidates : Scan → List (ReadyEntry × String)
  | .heaps _ candidates => candidates
  | .drains _ _ drain => drain.candidates

/-- The entry whose turn it is. -/
def Scan.next? : Scan → Option ReadyEntry
  | .heaps .. => none
  | .drains _ _ drain => (Heapq.heappop drain.queue).map Prod.fst

namespace InMemoryTaskQueue

/-- One step of the scan: on to the next heap, one entry of the present heap, or the end of it. -/
def scanStep (q : InMemoryTaskQueue) (worker : WorkerInfo) (completed : Finset String) :
    Scan → Except QueueError Scan × InMemoryTaskQueue
  | .heaps [] candidates => (.ok (.heaps [] candidates), q)
  | .heaps (queueName :: names) candidates =>
    let queue := q.ready.getD queueName []
    if queue = [] then (.ok (.heaps names candidates), q) else (.ok (.drains queueName names ⟨queue, [], candidates⟩), q)
  | .drains queueName names d =>
    match Heapq.heappop d.queue with
    | none =>
      (.ok (.heaps names d.candidates),
        { q with ready := q.ready.set queueName (d.retained.foldl Heapq.heappush d.queue) })
    | some (candidate, rest) =>
      if candidate.taskId ∈ q.cancelled then (.ok (.drains queueName names { d with queue := rest }), q)
      else
        let d := { d with queue := rest, retained := d.retained ++ [candidate] }
        match q.tasks.get? candidate.taskId with
        | none => (.error (.keyError candidate.taskId), { q with ready := q.ready.set queueName d.queue })
        | some task =>
          let dependenciesReady := decide ((q.objects task).spec.dependsOn ⊆ completed)
          if worker.accepts (q.objects task) && dependenciesReady then
            (.ok (.drains queueName names { d with candidates := d.candidates ++ [(candidate, queueName)] }), q)
          else (.ok (.drains queueName names d), q)

/-- The end of `_pop_eligible_locked`: the best candidate leaves its heap. -/
def takeBest (q : InMemoryTaskQueue) (candidates : List (ReadyEntry × String)) :
    Except QueueError (Option TaskRef) × InMemoryTaskQueue :=
  match minCandidate candidates with
  | none => (.ok none, q)
  | some (best, bestQueue) =>
    let queue := q.ready.getD bestQueue []
    if best ∈ queue then
      let q := { q with ready := q.ready.set bestQueue (Heapq.heapify (queue.erase best)) }
      match q.tasks.get? best.taskId with
      | none => (.error (.keyError best.taskId), q)
      | some task => (.ok (some task), q)
    else (.error .valueError, q)

/-- The end of a pass: the task that was taken is leased. -/
def leaseTaken (workerId : String) (deadline : ℚ) :
    Except QueueError (Option TaskRef) × InMemoryTaskQueue → Except QueueError (Option TaskRef) × InMemoryTaskQueue
  | (.ok (some task), q) =>
    let q := q.assign task fun t => { t with
      status := .running, assignedWorker := some workerId, leaseDeadline := some deadline }
    (.ok (some task), { q with inflight := q.inflight.set (q.objects task).taskId task })
  | outcome => outcome

/-! ### A pass with nothing in between -/

/-- So many steps of the scan, against one worker and one completed set. -/
def scanSteps (worker : WorkerInfo) (completed : Finset String) :
    ℕ → InMemoryTaskQueue → Scan → Except QueueError Scan × InMemoryTaskQueue
  | 0, q, scan => (.ok scan, q)
  | n + 1, q, scan =>
    match q.scanStep worker completed scan with
    | (.error e, q) => (.error e, q)
    | (.ok scan, q) => scanSteps worker completed n q scan

section Uninterrupted

variable {q r : InMemoryTaskQueue} {worker : WorkerInfo} {completed : Finset String}

theorem scanSteps_succ {n : ℕ} {scan scan' : Scan} (first : q.scanStep worker completed scan = (.ok scan', r)) :
    scanSteps worker completed (n + 1) q scan = scanSteps worker completed n r scan' := by
  rw [scanSteps, first]

/-- Draining a heap step by step comes to its end as the loop does. -/
theorem drain_steps (queueName : String) (names : List String) (fuel : ℕ) {d : Drain} (enough : d.queue.length ≤ fuel) :
    ∃ n, scanSteps worker completed n q (.drains queueName names d) =
      match drainLoop q worker completed queueName fuel d with
      | (.error e, d) => (.error e, { q with ready := q.ready.set queueName d.queue })
      | (.ok (), d) => (.ok (.heaps names d.candidates),
          { q with ready := q.ready.set queueName (d.retained.foldl Heapq.heappush d.queue) }) := by
  induction fuel generalizing d with
  | zero =>
    have empty : Heapq.heappop d.queue = none :=
      (Heapq.heappop_eq_none _).mpr (List.length_eq_zero_iff.mp (Nat.le_zero.mp enough))
    refine ⟨1, ?_⟩
    simp only [scanSteps, scanStep, drainLoop, empty]
  | succ fuel ih =>
    unfold drainLoop
    cases popped : Heapq.heappop d.queue with
    | none => exact ⟨1, by simp only [scanSteps, scanStep, popped]⟩
    | some top =>
      obtain ⟨candidate, rest⟩ := top
      have shorter := Heapq.heappop_length popped
      by_cases dropped : candidate.taskId ∈ q.cancelled
      · have one : q.scanStep worker completed (.drains queueName names d) =
            (.ok (.drains queueName names { d with queue := rest }), q) := by
          simp only [scanStep, popped, if_pos dropped]
        obtain ⟨n, result⟩ := ih (d := { d with queue := rest }) (by dsimp only; omega)
        refine ⟨n + 1, ?_⟩
        simp only [if_pos dropped]
        rw [scanSteps_succ one, result]
      · simp only [if_neg dropped]
        cases found : q.tasks.get? candidate.taskId with
        | none => exact ⟨1, by simp only [scanSteps, scanStep, popped, if_neg dropped, found]⟩
        | some task =>
          by_cases accepted : (worker.accepts (q.objects task) &&
              decide ((q.objects task).spec.dependsOn ⊆ completed)) = true
          · have one : q.scanStep worker completed (.drains queueName names d) = (.ok (.drains queueName names
                ⟨rest, d.retained ++ [candidate], d.candidates ++ [(candidate, queueName)]⟩), q) := by
              simp only [scanStep, popped, if_neg dropped, found, if_pos accepted]
            obtain ⟨n, result⟩ := ih
              (d := ⟨rest, d.retained ++ [candidate], d.candidates ++ [(candidate, queueName)]⟩) (by dsimp only; omega)
            refine ⟨n + 1, ?_⟩
            simp only [if_pos accepted]
            rw [scanSteps_succ one, result]
          · have one : q.scanStep worker completed (.drains queueName names d) =
                (.ok (.drains queueName names ⟨rest, d.retained ++ [candidate], d.candidates⟩), q) := by
              simp only [scanStep, popped, if_neg dropped, found, if_neg accepted]
            obtain ⟨n, result⟩ := ih (d := ⟨rest, d.retained ++ [candidate], d.candidates⟩) (by dsimp only; omega)
            refine ⟨n + 1, ?_⟩
            simp only [if_neg accepted]
            rw [scanSteps_succ one, result]

theorem scanSteps_add {m n : ℕ} {scan scan' : Scan} (first : scanSteps worker completed m q scan = (.ok scan', r)) :
    scanSteps worker completed (m + n) q scan = scanSteps worker completed n r scan' := by
  induction m generalizing q scan with
  | zero =>
    cases first
    rw [Nat.zero_add]
  | succ m ih =>
    rw [scanSteps] at first
    rw [Nat.succ_add, scanSteps]
    split at first <;> rename_i one
    · cases first
    · exact ih first

/-- The scan of `_pop_eligible_locked`, step by step. -/
theorem scan_steps (names : List String) (q : InMemoryTaskQueue) (candidates : List (ReadyEntry × String)) :
    ∃ n, scanSteps worker completed n q (.heaps names candidates) =
      match scanQueues worker completed names q candidates with
      | (.error e, q) => (.error e, q)
      | (.ok candidates, q) => (.ok (.heaps [] candidates), q) := by
  induction names generalizing q candidates with
  | nil => exact ⟨0, rfl⟩
  | cons queueName names ih =>
    by_cases empty : q.ready.getD queueName [] = []
    · have one : q.scanStep worker completed (.heaps (queueName :: names) candidates) =
          (.ok (.heaps names candidates), q) := if_pos empty
      obtain ⟨n, result⟩ := ih q candidates
      refine ⟨n + 1, ?_⟩
      simp only [scanQueues, if_pos empty]
      rw [scanSteps_succ one, result]
    · have one : q.scanStep worker completed (.heaps (queueName :: names) candidates) =
          (.ok (.drains queueName names ⟨q.ready.getD queueName [], [], candidates⟩), q) := if_neg empty
      obtain ⟨n, drained⟩ := @drain_steps q worker completed queueName names (q.ready.getD queueName []).length
        ⟨q.ready.getD queueName [], [], candidates⟩ (le_refl _)
      simp only [scanQueues, if_neg empty]
      cases looped : drainLoop q worker completed queueName (q.ready.getD queueName []).length
          ⟨q.ready.getD queueName [], [], candidates⟩ with
      | mk outcome d =>
        rw [looped] at drained
        cases outcome with
        | error e => exact ⟨n + 1, (scanSteps_succ one).trans drained⟩
        | ok =>
          obtain ⟨m, result⟩ := ih { q with ready := q.ready.set queueName (d.retained.foldl Heapq.heappush d.queue) }
            d.candidates
          exact ⟨n + 1 + m, (scanSteps_add ((scanSteps_succ one).trans drained)).trans result⟩

theorem popEligibleLocked_eq (q : InMemoryTaskQueue) (worker : WorkerInfo) (completed : Finset String) :
    q.popEligibleLocked worker completed =
      match scanQueues worker completed worker.queues q [] with
      | (.error e, q) => (.error e, q)
      | (.ok candidates, q) => q.takeBest candidates := rfl

theorem reserve_eq (q : InMemoryTaskQueue) (worker : WorkerInfo) (completed : Finset String) (leaseSeconds : ℚ)
    (clock : Clock) :
    q.reserve worker completed leaseSeconds clock = leaseTaken worker.workerId (clock 1 + leaseSeconds)
      ((q.promoteDelayedLocked (clock 0)).popEligibleLocked worker completed) := by
  unfold reserve
  cases (q.promoteDelayedLocked (clock 0)).popEligibleLocked worker completed with
  | mk outcome p =>
    cases outcome with
    | error e => rfl
    | ok taken => cases taken <;> rfl

end Uninterrupted

/-! ### What a pass keeps -/

/-- What the scan has taken off its heap is what is filed there. -/
def Spread (q : InMemoryTaskQueue) : Scan → Prop
  | .heaps .. => True
  | .drains queueName _ d => ∀ entry ∈ d.queue ++ d.retained, q.Filed queueName entry

/-- The entry whose turn it is passes the tests. -/
def Passes (q : InMemoryTaskQueue) (worker : WorkerInfo) (completed : Finset String) (scan : Scan) (task : TaskRef) :
    Prop :=
  ∃ entry, scan.next? = some entry ∧ q.tasks.get? entry.taskId = some task ∧
    worker.accepts (q.objects task) = true ∧ (q.objects task).spec.dependsOn ⊆ completed

/-- A candidate of this task has been found. -/
def Found (q : InMemoryTaskQueue) (scan : Scan) (task : TaskRef) : Prop :=
  ∃ item ∈ scan.candidates, q.tasks.get? item.1.taskId = some task

section Steps

variable {q : InMemoryTaskQueue} {worker : WorkerInfo} {completed : Finset String}

/-- A step of the scan changes the ready heaps only, and finds the tasks that pass. -/
theorem scanStep_spec (rep : Represented q) (worker : WorkerInfo) (completed : Finset String) {scan : Scan}
    (spread : q.Spread scan) :
    ∃ outcome ready, q.scanStep worker completed scan = (outcome, { q with ready }) ∧ Represented { q with ready } ∧
      ∀ scan', outcome = .ok scan' → q.Spread scan' ∧
        ∀ task, q.Found scan' task → q.Found scan task ∨ q.Passes worker completed scan task := by
  cases scan with
  | heaps names candidates =>
    cases names with
    | nil =>
      refine ⟨_, q.ready, rfl, rep, fun scan' same => ?_⟩
      obtain rfl := Except.ok.inj same
      exact ⟨trivial, fun task found => Or.inl found⟩
    | cons queueName names =>
      by_cases empty : q.ready.getD queueName [] = []
      · refine ⟨.ok (.heaps names candidates), q.ready, if_pos empty, rep, fun scan' same => ?_⟩
        obtain rfl := Except.ok.inj same
        exact ⟨trivial, fun task found => Or.inl found⟩
      · refine ⟨.ok (.drains queueName names ⟨_, [], candidates⟩), q.ready, if_neg empty, rep, fun scan' same => ?_⟩
        obtain rfl := Except.ok.inj same
        refine ⟨fun entry member => ?_, fun task found => Or.inl found⟩
        rw [List.append_nil] at member
        exact rep.ready queueName entry member
  | drains queueName names d =>
    cases popped : Heapq.heappop d.queue with
    | none =>
      refine ⟨.ok (.heaps names d.candidates), _, by simp only [scanStep, popped]; rfl, ?_, fun scan' same => ?_⟩
      · refine rep.setReady queueName _ fun entry member => spread entry ?_
        exact List.perm_append_comm.mem_iff.mp ((pushAll_perm d.retained d.queue).mem_iff.mp member)
      · obtain rfl := Except.ok.inj same
        exact ⟨trivial, fun task found => Or.inl found⟩
    | some top =>
      obtain ⟨candidate, rest⟩ := top
      have perm := Heapq.heappop_perm popped
      have fewer : ∀ entry ∈ rest, q.Filed queueName entry := fun entry member =>
        spread entry (List.mem_append_left _ (perm.mem_iff.mpr (List.mem_cons_of_mem _ member)))
      have top : q.Filed queueName candidate :=
        spread candidate (List.mem_append_left _ (perm.mem_iff.mpr List.mem_cons_self))
      have kept : ∀ entry ∈ rest ++ (d.retained ++ [candidate]), q.Filed queueName entry := by
        intro entry member
        rcases List.mem_append.mp member with left | right
        · exact fewer entry left
        · rcases List.mem_append.mp right with old | here
          · exact spread entry (List.mem_append_right _ old)
          · rw [List.mem_singleton.mp here]
            exact top
      by_cases dropped : candidate.taskId ∈ q.cancelled
      · refine ⟨.ok (.drains queueName names { d with queue := rest }), q.ready,
          by simp only [scanStep, popped, if_pos dropped], rep, fun scan' same => ?_⟩
        obtain rfl := Except.ok.inj same
        refine ⟨fun entry member => ?_, fun task found => Or.inl found⟩
        rcases List.mem_append.mp member with left | right
        · exact fewer entry left
        · exact spread entry (List.mem_append_right _ right)
      · obtain ⟨task, found, _⟩ := top
        by_cases accepted : (worker.accepts (q.objects task) &&
            decide ((q.objects task).spec.dependsOn ⊆ completed)) = true
        · refine ⟨.ok (.drains queueName names ⟨rest, d.retained ++ [candidate], d.candidates ++ [(candidate, queueName)]⟩),
            q.ready, by simp only [scanStep, popped, if_neg dropped, found, if_pos accepted], rep, fun scan' same => ?_⟩
          obtain rfl := Except.ok.inj same
          refine ⟨kept, fun other given => ?_⟩
          obtain ⟨item, member, known⟩ := given
          rcases List.mem_append.mp member with old | new
          · exact Or.inl ⟨item, old, known⟩
          · rw [List.mem_singleton.mp new] at known
            obtain rfl := Option.some.inj (found.symm.trans known)
            rw [Bool.and_eq_true, decide_eq_true_eq] at accepted
            exact Or.inr ⟨candidate, by rw [Scan.next?, popped]; rfl, found, accepted⟩
        · refine ⟨.ok (.drains queueName names ⟨rest, d.retained ++ [candidate], d.candidates⟩), q.ready,
            by simp only [scanStep, popped, if_neg dropped, found, if_neg accepted], rep, fun scan' same => ?_⟩
          obtain rfl := Except.ok.inj same
          exact ⟨kept, fun other given => Or.inl given⟩

/-- What the best candidate stands for is the task that is leased. -/
theorem takeBest_spec (rep : Represented q) (candidates : List (ReadyEntry × String)) :
    ∃ outcome ready, q.takeBest candidates = (outcome, { q with ready }) ∧ Represented { q with ready } ∧
      ∀ task, outcome = .ok (some task) → ∃ item ∈ candidates, q.tasks.get? item.1.taskId = some task := by
  unfold takeBest
  cases chosen : minCandidate candidates with
  | none => exact ⟨.ok none, q.ready, rfl, rep, fun _ same => by cases same⟩
  | some item =>
    obtain ⟨best, bestQueue⟩ := item
    by_cases present : best ∈ q.ready.getD bestQueue []
    · simp only [if_pos present]
      have repNext := rep.setReady bestQueue (Heapq.heapify ((q.ready.getD bestQueue []).erase best)) fun entry member =>
        rep.ready bestQueue entry (List.mem_of_mem_erase ((Heapq.heapify_perm _).mem_iff.mp member))
      cases found : q.tasks.get? best.taskId with
      | none => exact ⟨_, _, rfl, repNext, fun _ same => by cases same⟩
      | some task =>
        refine ⟨_, _, rfl, repNext, fun other same => ?_⟩
        obtain rfl := Option.some.inj (Except.ok.inj same)
        exact ⟨_, minCandidate_mem chosen, found⟩
    · simp only [if_neg present]
      exact ⟨_, q.ready, rfl, rep, fun _ same => by cases same⟩

theorem leaseTaken_spec {outcome : Except QueueError (Option TaskRef)} (rep : Represented q)
    (known : ∀ task, outcome = .ok (some task) → ∃ id, q.tasks.get? id = some task) (workerId : String) (deadline : ℚ) :
    (leaseTaken workerId deadline (outcome, q)).1 = outcome ∧
      (leaseTaken workerId deadline (outcome, q)).2.tasks = q.tasks ∧
      Represented (leaseTaken workerId deadline (outcome, q)).2 := by
  cases outcome with
  | error e => exact ⟨rfl, rfl, rep⟩
  | ok taken =>
    cases taken with
    | none => exact ⟨rfl, rfl, rep⟩
    | some task =>
      obtain ⟨id, found⟩ := known task rfl
      have assigned := rep.assign task (f := fun t => { t with
        status := .running, assignedWorker := some workerId, leaseDeadline := some deadline }) ⟨rfl, rfl, rfl⟩
      have name := assigned.named id task found
      exact ⟨rfl, rfl, assigned.setInflight (by rw [name]; exact found)⟩

end Steps

end InMemoryTaskQueue

end TaskRunner
