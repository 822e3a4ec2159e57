import TaskRunner.Base.HeapOrder
import TaskRunner.Queue.Effect

/-!
The heaps of the queue are heaps at all times, so that promotion, which looks at the root of the delayed heap
only, moves every entry that is due.
-/

namespace TaskRunner
open Base Heapq

namespace InMemoryTaskQueue

structure Heaped (q : InMemoryTaskQueue) : Prop where
  ready : ∀ queueName, Heap (q.ready.getD queueName [])
  delayed : Heap q.delayed

theorem heaped_init (maxDepth : Int) : Heaped (init maxDepth) := ⟨fun _ => heap_nil, heap_nil⟩

section Kept

variable {q : InMemoryTaskQueue}

theorem Heaped.setReady (heaped : Heaped q) (queueName : String) {entries : List ReadyEntry} (heap : Heap entries) :
    Heaped { q with ready := q.ready.set queueName entries } := by
  refine ⟨fun name => ?_, heaped.delayed⟩
  show Heap ((q.ready.set queueName entries).getD name [])
  rw [getD_set]
  split
  · exact heap
  · exact heaped.ready name

theorem Heaped.push (heaped : Heaped q) (task : TaskRef) (now : ℚ) : Heaped (q.push task now) := by
  unfold InMemoryTaskQueue.push
  dsimp only
  split
  · exact ⟨heaped.ready, heappush_heap heaped.delayed _⟩
  · have filed := heaped.setReady (q.objects task).spec.queue (heappush_heap (heaped.ready (q.objects task).spec.queue)
      ⟨(q.objects task).spec.priority, (q.objects task).createdAt, q.sequence + 1, (q.objects task).taskId⟩)
    exact ⟨filed.ready, filed.delayed⟩

theorem promoteLoop_heaped (now : ℚ) (fuel : ℕ) (heaped : Heaped q) : Heaped (promoteLoop now fuel q) := by
  induction fuel generalizing q with
  | zero => exact heaped
  | succ fuel ih =>
    unfold promoteLoop
    split
    · exact heaped
    · rename_i entry rest popped
      have shorter : Heaped { q with delayed := rest } := ⟨heaped.ready, (heappop_heap heaped.delayed popped).1⟩
      split
      · dsimp only
        split
        · exact ih shorter
        · split
          · exact ih shorter
          · exact ih (shorter.setReady _ (heappush_heap (heaped.ready _) _))
      · exact heaped

theorem drainLoop_heap (worker : WorkerInfo) (completed : Finset String) (queueName : String) (fuel : ℕ) {d : Drain}
    (heap : Heap d.queue) : Heap (drainLoop q worker completed queueName fuel d).2.queue := by
  induction fuel generalizing d with
  | zero => exact heap
  | succ fuel ih =>
    unfold drainLoop
    split
    · exact heap
    · rename_i candidate rest popped
      have shorter := (heappop_heap heap popped).1
      split
      · exact ih shorter
      · dsimp only
        split
        · exact shorter
        · split <;> exact ih shorter

theorem pushAll_heap (entries : List ReadyEntry) {heap : List ReadyEntry} (ordered : Heap heap) :
    Heap (entries.foldl heappush heap) := by
  induction entries generalizing heap with
  | nil => exact ordered
  | cons entry rest ih => exact ih (heappush_heap ordered entry)

theorem scanQueues_heaped (worker : WorkerInfo) (completed : Finset String) (names : List String) (heaped : Heaped q)
    (candidates : List (ReadyEntry × String)) : Heaped (scanQueues worker completed names q candidates).2 := by
  induction names generalizing q candidates with
  | nil => exact heaped
  | cons queueName names ih =>
    have drained := drainLoop_heap (q := q) worker completed queueName (q.ready.getD queueName []).length
      (d := ⟨q.ready.getD queueName [], [], candidates⟩) (heaped.ready queueName)
    unfold scanQueues
    dsimp only
    split
    · exact ih heaped candidates
    · split <;> rename_i result <;> rw [result] at drained
      · exact heaped.setReady queueName drained
      · exact ih (heaped.setReady queueName (pushAll_heap _ drained)) _

theorem popEligibleLocked_heaped (heaped : Heaped q) (worker : WorkerInfo) (completed : Finset String) :
    Heaped (q.popEligibleLocked worker completed).2 := by
  have scanned := scanQueues_heaped worker completed worker.queues heaped []
  unfold popEligibleLocked
  split <;> rename_i result <;> rw [result] at scanned
  · exact scanned
  · dsimp only
    split
    · exact scanned
    · split
      · split <;> exact scanned.setReady _ (heapify_heap _)
      · exact scanned

theorem reserve_heaped (heaped : Heaped q) (worker : WorkerInfo) (completed : Finset String) (leaseSeconds : ℚ)
    (clock : Clock) : Heaped (q.reserve worker completed leaseSeconds clock).2 := by
  have popped := popEligibleLocked_heaped (promoteLoop_heaped (clock 0) q.delayed.length heaped) worker completed
  unfold reserve promoteDelayedLocked
  split <;> rename_i result <;> rw [result] at popped
  · exact popped
  · exact popped
  · exact ⟨popped.ready, popped.delayed⟩

theorem submit_heaped (heaped : Heaped q) (task : TaskEnvelope) (clock : Clock) : Heaped (q.submit task clock).2 := by
  unfold submit
  split
  · exact heaped
  · let filed : TaskEnvelope := { task with
      spec := task.spec.normalized, status := .queued, availableAt := clock 0 + task.spec.normalized.delaySeconds }
    have registered : Heaped { (q.allocate filed).2 with tasks := q.tasks.set task.taskId q.allocated } :=
      ⟨heaped.ready, heaped.delayed⟩
    exact registered.push q.allocated (clock 1)

theorem submitMany_heaped (heaped : Heaped q) (batch : List TaskEnvelope) (clock : Clock) :
    Heaped (q.submitMany batch clock).2 := by
  induction batch generalizing q clock with
  | nil => exact heaped
  | cons task rest ih =>
    have first := submit_heaped heaped task clock
    unfold submitMany
    split <;> rename_i result <;> rw [result] at first
    · exact first
    · have later := ih first (clock.later 2)
      split <;> rename_i result' <;> rw [result'] at later <;> exact later

theorem complete_heaped (heaped : Heaped q) (taskId : String) (status : TaskStatus) (error : Option String) :
    Heaped (q.complete taskId status error).2 := by
  unfold complete popInflight
  cases (q.inflight.get? taskId).or (q.tasks.get? taskId) with
  | none => exact ⟨heaped.ready, heaped.delayed⟩
  | some task =>
    dsimp only
    split <;> exact ⟨heaped.ready, heaped.delayed⟩

theorem retry_heaped (heaped : Heaped q) (taskId reason : String) (clock : Clock) :
    Heaped (q.retry taskId reason clock).2 := by
  unfold retry popInflight
  cases (q.inflight.get? taskId).or (q.tasks.get? taskId) with
  | none => exact ⟨heaped.ready, heaped.delayed⟩
  | some task =>
    dsimp only
    split
    · exact ⟨heaped.ready, heaped.delayed⟩
    · refine Heaped.push ?_ task (clock 1)
      exact ⟨heaped.ready, heaped.delayed⟩

theorem requeueLoop_heaped (now : ℚ) (leases : List (String × TaskRef)) (heaped : Heaped q) (clock : Clock) :
    Heaped (requeueLoop now leases q clock).2 := by
  induction leases generalizing q clock with
  | nil => exact heaped
  | cons lease rest ih =>
    obtain ⟨taskId, task⟩ := lease
    unfold requeueLoop
    split
    · dsimp only
      have freed : Heaped ({ q with inflight := q.inflight.erase taskId }.assign task fun t =>
          { t with assignedWorker := none }) := ⟨heaped.ready, heaped.delayed⟩
      have retried := retry_heaped freed taskId "lease expired" clock
      split <;> rename_i result <;> rw [result] at retried
      · exact retried
      · have later := ih retried (clock.later 2)
        split <;> rename_i result' <;> rw [result'] at later <;> exact later
    · exact ih heaped clock

theorem step_heaped (heaped : Heaped q) (call : Call) : Heaped (q.step call) := by
  by_cases issued : call.Issued q
  · rw [step_issued issued]
    cases call with
    | submit task clock => exact submit_heaped heaped task.envelope clock
    | submitMany tasks clock => exact submitMany_heaped heaped (tasks.map Submission.envelope) clock
    | reserve worker completed leaseSeconds clock => exact reserve_heaped heaped worker completed leaseSeconds clock
    | complete taskId status error => exact complete_heaped heaped taskId status error
    | retry taskId reason clock => exact retry_heaped heaped taskId reason clock
    | cancel taskId =>
      simp only [exec, cancel]
      cases q.tasks.get? taskId <;> exact ⟨heaped.ready, heaped.delayed⟩
    | requeueExpiredLeases clock => exact requeueLoop_heaped (clock 0) q.inflight.entries heaped (clock.later 1)
    | snapshot now => exact promoteLoop_heaped now q.delayed.length heaped
  · rw [step_refused issued]
    exact heaped

end Kept

theorem runCalls_heaped (maxDepth : Int) (calls : List Call) : Heaped (runCalls maxDepth calls) :=
  Machine.run_invariant (I := Heaped) (fun _ call heaped => step_heaped heaped call) (heaped_init maxDepth) calls

/-! ### What promotion moves -/

/-- A task whose delayed entries are promoted when they are due. -/
def Promotable (task : TaskEnvelope) : Prop := task.status ≠ .cancelled ∧ task.status ≠ .deadLettered

instance (task : TaskEnvelope) : Decidable (Promotable task) := inferInstanceAs (Decidable (_ ∧ _))

/-- The entry a task gets in its ready heap when a delayed entry of it is due at `now`. -/
def arrival (q : InMemoryTaskQueue) (now : ℚ) (queueName : String) (entry : DelayedEntry) : Option ReadyEntry :=
  if entry.availableAt ≤ now then
    match q.task? entry.taskId with
    | none => none
    | some task =>
      if Promotable task ∧ task.spec.queue = queueName then
        some ⟨task.spec.priority, task.createdAt, q.sequence, entry.taskId⟩
      else none
  else none

def arrivals (q : InMemoryTaskQueue) (now : ℚ) (queueName : String) : List ReadyEntry :=
  q.delayed.filterMap (q.arrival now queueName)

/-- Every delayed entry due at `now` has moved to its task's ready heap, or is discarded when the task is cancelled or
dead-lettered; nothing else has changed. -/
structure Promoted (q : InMemoryTaskQueue) (now : ℚ) (p : InMemoryTaskQueue) : Prop where
  ready : ∀ queueName, (p.ready.getD queueName []).Perm (q.ready.getD queueName [] ++ q.arrivals now queueName)
  delayed : p.delayed.Perm (q.delayed.filter fun entry => now < entry.availableAt)
  rest : p = { q with ready := p.ready, delayed := p.delayed }

theorem promoted_nothing {q : InMemoryTaskQueue} {now : ℚ} (early : ∀ entry ∈ q.delayed, now < entry.availableAt) :
    Promoted q now q := by
  refine ⟨fun queueName => ?_, ?_, rfl⟩
  · have none : q.arrivals now queueName = [] := by
      apply List.filterMap_eq_nil_iff.mpr
      intro entry member
      rw [arrival, if_neg (not_le.mpr (early entry member))]
    rw [none, List.append_nil]
  · rw [List.filter_eq_self.mpr fun entry member => decide_eq_true (early entry member)]

/-- One entry that is due is dealt with, and the others after it. -/
theorem Promoted.cons {q p : InMemoryTaskQueue} {now : ℚ} {entry : DelayedEntry} {rest : List DelayedEntry}
    (perm : q.delayed.Perm (entry :: rest)) (due : entry.availableAt ≤ now) {ready : Dict String (List ReadyEntry)}
    (moved : ∀ queueName, (ready.getD queueName []).Perm
      (q.ready.getD queueName [] ++ (q.arrival now queueName entry).toList))
    (later : Promoted { q with ready, delayed := rest } now p) : Promoted q now p := by
  refine ⟨fun queueName => ?_, ?_, later.rest⟩
  · have split : (q.arrivals now queueName).Perm
        ((q.arrival now queueName entry).toList ++ rest.filterMap (q.arrival now queueName)) := by
      apply (perm.filterMap _).trans
      rw [List.filterMap_cons]
      cases q.arrival now queueName entry <;> exact List.Perm.refl _
    calc (p.ready.getD queueName []).Perm (ready.getD queueName [] ++ rest.filterMap (q.arrival now queueName)) :=
        later.ready queueName
      _ |>.Perm (q.ready.getD queueName [] ++ (q.arrival now queueName entry).toList ++
          rest.filterMap (q.arrival now queueName)) := (moved queueName).append_right _
      _ |>.Perm (q.ready.getD queueName [] ++ q.arrivals now queueName) := by
        rw [List.append_assoc]
        exact split.symm.append_left _
  · refine later.delayed.trans ((perm.filter _).trans ?_).symm
    rw [List.filter_cons_of_neg (by simpa using due)]

theorem promoteLoop_promoted (now : ℚ) (fuel : ℕ) {q : InMemoryTaskQueue} (rep : Represented q) (heap : Heap q.delayed)
    (enough : q.delayed.length ≤ fuel) : Promoted q now (promoteLoop now fuel q) := by
  induction fuel generalizing q with
  | zero =>
    have empty : q.delayed = [] := List.length_eq_zero_iff.mp (Nat.le_zero.mp enough)
    exact promoted_nothing fun entry member => by rw [empty] at member; cases member
  | succ fuel ih =>
    unfold promoteLoop
    split
    · rename_i none
      have empty : q.delayed = [] := (heappop_eq_none _).mp none
      exact promoted_nothing fun entry member => by rw [empty] at member; cases member
    · rename_i entry rest popped
      have perm := heappop_perm popped
      have shorter := heappop_length popped
      obtain ⟨heapRest, least⟩ := heappop_heap heap popped
      have repRest := rep.setDelayed rest fun other member =>
        rep.delayed other (perm.mem_iff.mpr (List.mem_cons_of_mem _ member))
      split
      · rename_i due
        obtain ⟨task, found⟩ := Dict.exists_of_mem (rep.delayed entry (perm.mem_iff.mpr List.mem_cons_self))
        have named : q.task? entry.taskId = some (q.objects task) := by rw [task?, found]; rfl
        have arrives : ∀ queueName, q.arrival now queueName entry =
            if Promotable (q.objects task) ∧ (q.objects task).spec.queue = queueName then
              some ⟨(q.objects task).spec.priority, (q.objects task).createdAt, q.sequence, entry.taskId⟩
            else none := by
          intro queueName
          rw [arrival, if_pos due, named]
        simp only [found]
        split
        · rename_i closed
          have dropped : ¬ Promotable (q.objects task) := fun live => closed.elim live.1 live.2
          have moved : ∀ queueName, (q.ready.getD queueName []).Perm
              (q.ready.getD queueName [] ++ (q.arrival now queueName entry).toList) := by
            intro queueName
            rw [arrives, if_neg fun h => dropped h.1, Option.toList_none, List.append_nil]
          exact .cons perm due moved (ih repRest heapRest (by simp only; omega))
        · rename_i live
          refine .cons perm due ?_ (ih (promoted_represented rep popped found) heapRest (by simp only; omega))
          intro queueName
          rw [getD_set, arrives, rep.named _ _ found]
          by_cases here : queueName = (q.objects task).spec.queue
          · subst here
            rw [if_pos rfl, if_pos ⟨not_or.mp live, rfl⟩, Option.toList_some]
            exact (heappush_perm _ _).trans (List.perm_append_singleton _ _).symm
          · rw [if_neg here, if_neg fun h => here h.2.symm, Option.toList_none, List.append_nil]
      · -- the root is not due yet, so no entry is
        rename_i early
        apply promoted_nothing
        intro other member
        have above : entry.availableAt ≤ other.availableAt := by
          have key : entry.key ≤ other.key := least other member
          rcases Prod.Lex.le_iff.mp key with less | ⟨same, _⟩
          · exact less.le
          · exact same.le
        exact (not_le.mp early).trans_le above

theorem promote_promoted {q : InMemoryTaskQueue} (rep : Represented q) (heaped : Heaped q) (now : ℚ) :
    Promoted q now (q.promoteDelayedLocked now) :=
  promoteLoop_promoted now _ rep heaped.delayed (le_refl _)

end InMemoryTaskQueue

end TaskRunner
