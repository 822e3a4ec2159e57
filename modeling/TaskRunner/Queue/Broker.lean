import TaskRunner.Base.Heapq
import TaskRunner.Shared.Models

/-!
`InMemoryTaskQueue` of `queue/broker.py`. The dictionaries hold references to envelopes, as the
source's do, and `objects` holds what the references point to; a method that assigns a field of a
task changes it there, for every dictionary at once. Each method runs under the queue's lock and is
one function here. The readings a method takes from `time()` are its clock, in the order taken.
-/

namespace TaskRunner
open Base

/-- The successive values `time()` returns during one call. -/
abbrev Clock := ℕ → ℚ

/-- The readings left after the first `k`. -/
def Clock.later (clock : Clock) (k : ℕ) : Clock := fun i => clock (k + i)

/-- An entry of a ready heap, ordered as the tuple it is in the source. -/
structure ReadyEntry where
  priority : Int
  createdAt : ℚ
  sequence : ℕ
  taskId : String
  deriving DecidableEq

def ReadyEntry.key (e : ReadyEntry) : ℤ ×ₗ ℚ ×ₗ ℕ ×ₗ String :=
  toLex (e.priority, toLex (e.createdAt, toLex (e.sequence, e.taskId)))

theorem ReadyEntry.key_injective : Function.Injective ReadyEntry.key := by
  rintro ⟨p, c, s, i⟩ ⟨p', c', s', i'⟩ same
  simpa [ReadyEntry.key] using same

instance : LinearOrder ReadyEntry := LinearOrder.lift' ReadyEntry.key ReadyEntry.key_injective

/-- An entry of the delayed heap. -/
structure DelayedEntry where
  availableAt : ℚ
  sequence : ℕ
  taskId : String
  deriving DecidableEq

def DelayedEntry.key (e : DelayedEntry) : ℚ ×ₗ ℕ ×ₗ String :=
  toLex (e.availableAt, toLex (e.sequence, e.taskId))

theorem DelayedEntry.key_injective : Function.Injective DelayedEntry.key := by
  rintro ⟨a, s, i⟩ ⟨a', s', i'⟩ same
  simpa [DelayedEntry.key] using same

instance : LinearOrder DelayedEntry := LinearOrder.lift' DelayedEntry.key DelayedEntry.key_injective

/-- A reference to an envelope object. -/
abbrev TaskRef := ℕ

inductive QueueError where
  | queueFull (depth maxDepth : Int)
  | taskNotFound (taskId : String)
  | keyError (taskId : String)
  | valueError
  deriving DecidableEq

def QueueError.message : QueueError → String
  | .queueFull depth maxDepth => s!"queue depth {depth} reached max {maxDepth}"
  | .taskNotFound taskId => taskId
  | .keyError taskId => taskId
  | .valueError => "list.remove(x): x not in list"

structure InMemoryTaskQueue where
  maxDepth : Int := 10000
  ready : Dict String (List ReadyEntry) := Dict.empty
  delayed : List DelayedEntry := []
  tasks : Dict String TaskRef := Dict.empty
  inflight : Dict String TaskRef := Dict.empty
  deadLetter : Dict String TaskRef := Dict.empty
  cancelled : Finset String := ∅
  sequence : ℕ := 0
  objects : TaskRef → TaskEnvelope := fun _ => default
  allocated : ℕ := 0

namespace InMemoryTaskQueue

/-- Assign fields of the task a reference points to. -/
def assign (q : InMemoryTaskQueue) (task : TaskRef) (f : TaskEnvelope → TaskEnvelope) : InMemoryTaskQueue :=
  { q with objects := Function.update q.objects task (f (q.objects task)) }

/-- A new envelope object. -/
def allocate (q : InMemoryTaskQueue) (task : TaskEnvelope) : TaskRef × InMemoryTaskQueue :=
  (q.allocated, { q with
    objects := Function.update q.objects q.allocated task
    allocated := q.allocated + 1 })

/-- The statuses `depth` does not count. -/
def terminal : TaskStatus → Bool
  | .succeeded | .failed | .cancelled | .deadLettered => true
  | _ => false

def depth (q : InMemoryTaskQueue) : Int :=
  (q.tasks.values.length : Int) -
    (q.tasks.values.filter (fun task => terminal (q.objects task).status)).length

def push (q : InMemoryTaskQueue) (task : TaskRef) (now : ℚ) : InMemoryTaskQueue :=
  let t := q.objects task
  let sequence := q.sequence + 1
  if t.availableAt > now then
    { q with sequence, delayed := Heapq.heappush q.delayed ⟨t.availableAt, sequence, t.taskId⟩ }
  else
    { q with
      sequence
      ready := q.ready.set t.spec.queue
        (Heapq.heappush (q.ready.getD t.spec.queue []) ⟨t.spec.priority, t.createdAt, sequence, t.taskId⟩) }

/-- The loop of `_promote_delayed_locked`; one pass takes one entry, so `delayed.length` passes do. -/
def promoteLoop (now : ℚ) : ℕ → InMemoryTaskQueue → InMemoryTaskQueue
  | 0, q => q
  | fuel + 1, q =>
    match Heapq.heappop q.delayed with
    | none => q
    | some (entry, rest) =>
      if entry.availableAt ≤ now then
        let q := { q with delayed := rest }
        match q.tasks.get? entry.taskId with
        | none => promoteLoop now fuel q
        | some task =>
          let t := q.objects task
          if t.status = .cancelled ∨ t.status = .deadLettered then promoteLoop now fuel q
          else promoteLoop now fuel { q with
            ready := q.ready.set t.spec.queue
              (Heapq.heappush (q.ready.getD t.spec.queue [])
                ⟨t.spec.priority, t.createdAt, q.sequence, t.taskId⟩) }
      else q

def promoteDelayedLocked (q : InMemoryTaskQueue) (now : ℚ) : InMemoryTaskQueue :=
  promoteLoop now q.delayed.length q

/-- Where the drain of one ready heap stands: what is left of it, the entries to push back, and
the candidates found so far. -/
structure Drain where
  queue : List ReadyEntry
  retained : List ReadyEntry
  candidates : List (ReadyEntry × String)

/-- The `while queue` loop of `_pop_eligible_locked`; `queue.length` passes empty the heap. -/
def drainLoop (q : InMemoryTaskQueue) (worker : WorkerInfo) (completed : Finset String)
    (queueName : String) : ℕ → Drain → Except QueueError Unit × Drain
  | 0, d => (.ok (), d)
  | fuel + 1, d =>
    match Heapq.heappop d.queue with
    | none => (.ok (), d)
    | some (candidate, rest) =>
      if candidate.taskId ∈ q.cancelled then drainLoop q worker completed queueName fuel { d with queue := rest }
      else
        let d := { d with queue := rest, retained := d.retained ++ [candidate] }
        match q.tasks.get? candidate.taskId with
        | none => (.error (.keyError candidate.taskId), d)
        | some task =>
          let dependenciesReady := decide ((q.objects task).spec.dependsOn ⊆ completed)
          if worker.accepts (q.objects task) && dependenciesReady then
            drainLoop q worker completed queueName fuel
              { d with candidates := d.candidates ++ [(candidate, queueName)] }
          else drainLoop q worker completed queueName fuel d

/-- The `for queue_name in worker.queues` loop. -/
def scanQueues (worker : WorkerInfo) (completed : Finset String) :
    List String → InMemoryTaskQueue → List (ReadyEntry × String) →
      Except QueueError (List (ReadyEntry × String)) × InMemoryTaskQueue
  | [], q, candidates => (.ok candidates, q)
  | queueName :: names, q, candidates =>
    let queue := q.ready.getD queueName []
    if queue = [] then scanQueues worker completed names q candidates
    else
      match drainLoop q worker completed queueName queue.length ⟨queue, [], candidates⟩ with
      | (.error e, d) => (.error e, { q with ready := q.ready.set queueName d.queue })
      | (.ok (), d) =>
        scanQueues worker completed names
          { q with ready := q.ready.set queueName (d.retained.foldl Heapq.heappush d.queue) } d.candidates

/-- `min(candidates, key=lambda item: item[0])`: the first of the least candidates. -/
def minCandidate : List (ReadyEntry × String) → Option (ReadyEntry × String)
  | [] => none
  | first :: rest => some (rest.foldl (fun best item => if item.1 < best.1 then item else best) first)

def popEligibleLocked (q : InMemoryTaskQueue) (worker : WorkerInfo) (completed : Finset String) :
    Except QueueError (Option TaskRef) × InMemoryTaskQueue :=
  match scanQueues worker completed worker.queues q [] with
  | (.error e, q) => (.error e, q)
  | (.ok candidates, q) =>
    match minCandidate candidates with
    | none => (.ok none, q)
    | some (best, bestQueue) =>
      let queue := q.ready.getD bestQueue []
      if best ∈ queue then
        let q := { q with ready := q.ready.set bestQueue (Heapq.heapify (queue.erase best)) }
        match q.tasks.get? best.taskId with
        | none => (.error (.keyError best.taskId), q)
        | some task => (.ok (some task), q)
      else (.error .valueError, q)

/-- `depth`, the check of it, and the registration both submit methods share. -/
def submit (q : InMemoryTaskQueue) (task : TaskEnvelope) (clock : Clock) :
    Except QueueError TaskRef × InMemoryTaskQueue :=
  if q.depth ≥ q.maxDepth then (.error (.queueFull q.depth q.maxDepth), q)
  else
    let spec := task.spec.normalized
    let (ref, q) := q.allocate { task with
      spec, status := .queued, availableAt := clock 0 + spec.delaySeconds }
    (.ok ref, { q with tasks := q.tasks.set task.taskId ref }.push ref (clock 1))

/-- The loop of `submit_many`: an exception leaves the tasks before it queued. -/
def submitMany (q : InMemoryTaskQueue) : List TaskEnvelope → Clock →
    Except QueueError (List TaskRef) × InMemoryTaskQueue
  | [], _ => (.ok [], q)
  | task :: rest, clock =>
    match q.submit task clock with
    | (.error e, q) => (.error e, q)
    | (.ok ref, q) =>
      match submitMany q rest (clock.later 2) with
      | (.error e, q) => (.error e, q)
      | (.ok refs, q) => (.ok (ref :: refs), q)

/-- One pass of the loop in `reserve`: everything between two waits, under the lock. A `timeout=0`
call is one pass. -/
def reserve (q : InMemoryTaskQueue) (worker : WorkerInfo) (completed : Finset String)
    (leaseSeconds : ℚ) (clock : Clock) : Except QueueError (Option TaskRef) × InMemoryTaskQueue :=
  match (q.promoteDelayedLocked (clock 0)).popEligibleLocked worker completed with
  | (.error e, q) => (.error e, q)
  | (.ok none, q) => (.ok none, q)
  | (.ok (some task), q) =>
    let q := q.assign task fun t => { t with
      status := .running
      assignedWorker := some worker.workerId
      leaseDeadline := some (clock 1 + leaseSeconds) }
    (.ok (some task), { q with inflight := q.inflight.set (q.objects task).taskId task })

/-- `self._inflight.pop(task_id, None) or self._tasks.get(task_id)`. -/
def popInflight (q : InMemoryTaskQueue) (taskId : String) : Option TaskRef × InMemoryTaskQueue :=
  ((q.inflight.get? taskId).or (q.tasks.get? taskId), { q with inflight := q.inflight.erase taskId })

def ack (q : InMemoryTaskQueue) (taskId : String) : Except QueueError TaskRef × InMemoryTaskQueue :=
  match q.popInflight taskId with
  | (none, q) => (.error (.taskNotFound taskId), q)
  | (some task, q) => (.ok task, q.assign task fun t => { t with status := .acked, leaseDeadline := none })

def complete (q : InMemoryTaskQueue) (taskId : String) (status : TaskStatus) (error : Option String) :
    Except QueueError TaskRef × InMemoryTaskQueue :=
  match q.popInflight taskId with
  | (none, q) => (.error (.taskNotFound taskId), q)
  | (some task, q) =>
    let q := q.assign task fun t => { t with status, lastError := error, leaseDeadline := none }
    if status = .deadLettered then (.ok task, { q with deadLetter := q.deadLetter.set taskId task })
    else (.ok task, q)

def retry (q : InMemoryTaskQueue) (taskId reason : String) (clock : Clock) :
    Except QueueError TaskRef × InMemoryTaskQueue :=
  match q.popInflight taskId with
  | (none, q) => (.error (.taskNotFound taskId), q)
  | (some task, q) =>
    let q := q.assign task fun t => { t with
      attempts := t.attempts + 1, lastError := some reason, assignedWorker := none, leaseDeadline := none }
    let t := q.objects task
    if t.attempts > t.spec.maxRetries then
      let q := q.assign task fun t => { t with status := .deadLettered }
      (.ok task, { q with deadLetter := q.deadLetter.set t.taskId task })
    else
      let q := q.assign task fun t => { t with
        status := .retrying, availableAt := clock 0 + t.spec.retryBackoffSeconds * t.attempts }
      (.ok task, q.push task (clock 1))

def cancel (q : InMemoryTaskQueue) (taskId : String) : Except QueueError TaskRef × InMemoryTaskQueue :=
  match q.tasks.get? taskId with
  | none => (.error (.taskNotFound taskId), q)
  | some task =>
    let q := q.assign task fun t => { t with status := .cancelled }
    (.ok task, { q with cancelled := insert taskId q.cancelled, inflight := q.inflight.erase taskId })

/-- The lease of a task has run out at `now`. -/
def expired (q : InMemoryTaskQueue) (now : ℚ) (task : TaskRef) : Bool :=
  match (q.objects task).leaseDeadline with
  | none => false
  | some deadline => decide (deadline < now)

/-- The loop of `requeue_expired_leases` over the leases it listed before it began. -/
def requeueLoop (now : ℚ) : List (String × TaskRef) → InMemoryTaskQueue → Clock →
    Except QueueError (List TaskRef) × InMemoryTaskQueue
  | [], q, _ => (.ok [], q)
  | (taskId, task) :: rest, q, clock =>
    if q.expired now task then
      let q := { q with inflight := q.inflight.erase taskId }
      let q := q.assign task fun t => { t with assignedWorker := none }
      match q.retry taskId "lease expired" clock with
      | (.error e, q) => (.error e, q)
      | (.ok requeued, q) =>
        match requeueLoop now rest q (clock.later 2) with
        | (.error e, q) => (.error e, q)
        | (.ok refs, q) => (.ok (requeued :: refs), q)
    else requeueLoop now rest q clock

def requeueExpiredLeases (q : InMemoryTaskQueue) (clock : Clock) :
    Except QueueError (List TaskRef) × InMemoryTaskQueue :=
  requeueLoop (clock 0) q.inflight.entries q (clock.later 1)

def batch (q : InMemoryTaskQueue) (batchKey : String) (maxItems : ℕ) : List TaskRef :=
  (q.tasks.values.filter fun task =>
    (q.objects task).spec.batchKey = some batchKey ∧ (q.objects task).status = .queued).take maxItems

def get (q : InMemoryTaskQueue) (taskId : String) : Except QueueError TaskRef :=
  match q.tasks.get? taskId with
  | none => .error (.taskNotFound taskId)
  | some task => .ok task

def snapshot (q : InMemoryTaskQueue) (now : ℚ) : QueueSnapshot × InMemoryTaskQueue :=
  let q := q.promoteDelayedLocked now
  let queued := (q.ready.values.map List.length).sum
  let delayed := q.delayed.length
  let inflight := q.inflight.values.length
  let active := queued + delayed + inflight
  ({ queued, delayed, inflight
     deadLettered := q.deadLetter.values.length
     pressure := (active : ℚ) / ((max 1 q.maxDepth : Int) : ℚ) }, q)

end InMemoryTaskQueue

end TaskRunner
