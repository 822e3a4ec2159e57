import TaskRunner.Queue.Representation
import TaskRunner.Queue.Lifecycle

/-!
Promotion and the scan of the ready heaps, as the tasks see them: entries move towards the ready
heaps, and the only entries that disappear are those of cancelled or dead-lettered tasks.
-/

namespace TaskRunner
open Base

namespace InMemoryTaskQueue

/-! ### The entries of a task -/

def countReady (id : String) (entries : List ReadyEntry) : ℕ := entries.countP (fun e => e.taskId = id)

/-- The entries of a task in all ready heaps together. -/
def readyCount (ready : Dict String (List ReadyEntry)) (id : String) : ℕ :=
  (ready.values.map (countReady id)).sum

def delayedCount (delayed : List DelayedEntry) (id : String) : ℕ := delayed.countP (fun e => e.taskId = id)

theorem countReady_perm (id : String) {xs ys : List ReadyEntry} (perm : xs.Perm ys) :
    countReady id xs = countReady id ys := perm.countP_eq _

theorem countReady_push (id : String) (heap : List ReadyEntry) (entry : ReadyEntry) :
    countReady id (Heapq.heappush heap entry) = countReady id heap + if entry.taskId = id then 1 else 0 := by
  rw [countReady_perm id (Heapq.heappush_perm heap entry)]
  simp [countReady, List.countP_cons]

theorem delayedCount_push (id : String) (heap : List DelayedEntry) (entry : DelayedEntry) :
    delayedCount (Heapq.heappush heap entry) id = delayedCount heap id + if entry.taskId = id then 1 else 0 := by
  rw [delayedCount, (Heapq.heappush_perm heap entry).countP_eq]
  simp [delayedCount, List.countP_cons]

theorem delayedCount_pop {heap rest : List DelayedEntry} {entry : DelayedEntry}
    (popped : Heapq.heappop heap = some (entry, rest)) (id : String) :
    delayedCount heap id = delayedCount rest id + if entry.taskId = id then 1 else 0 := by
  rw [delayedCount, (Heapq.heappop_perm popped).countP_eq]
  simp [delayedCount, List.countP_cons]

section Counts

variable (ready : Dict String (List ReadyEntry)) (id : String)

theorem readyCount_set (queueName : String) (entries : List ReadyEntry) :
    readyCount (ready.set queueName entries) id + countReady id (ready.getD queueName []) =
      readyCount ready id + countReady id entries := by
  have sum := Dict.sum_values_set (countReady id) ready queueName entries
  have old : ((ready.get? queueName).map (countReady id)).getD 0 = countReady id (ready.getD queueName []) := by
    simp only [Dict.getD]
    cases ready.get? queueName <;> rfl
  rwa [old] at sum

theorem readyCount_push (queueName : String) (entry : ReadyEntry) :
    readyCount (ready.set queueName (Heapq.heappush (ready.getD queueName []) entry)) id =
      readyCount ready id + if entry.taskId = id then 1 else 0 := by
  have sum := readyCount_set ready id queueName (Heapq.heappush (ready.getD queueName []) entry)
  rw [countReady_push] at sum
  omega

theorem countReady_le (queueName : String) : countReady id (ready.getD queueName []) ≤ readyCount ready id := by
  have sum := readyCount_set ready id queueName []
  have none : countReady id [] = 0 := rfl
  omega

end Counts

variable {ready : Dict String (List ReadyEntry)} {id : String}

theorem countReady_pos {entries : List ReadyEntry} :
    0 < countReady id entries ↔ ∃ entry ∈ entries, entry.taskId = id := by
  simp [countReady, List.countP_pos_iff]

theorem delayedCount_pos {delayed : List DelayedEntry} :
    0 < delayedCount delayed id ↔ ∃ entry ∈ delayed, entry.taskId = id := by
  simp [delayedCount, List.countP_pos_iff]

theorem readyCount_pos :
    0 < readyCount ready id ↔ ∃ queueName, ∃ entry ∈ ready.getD queueName [], entry.taskId = id := by
  constructor
  · intro positive
    obtain ⟨count, member, nonzero⟩ := List.sum_pos_iff_exists_pos_nat.mp positive
    obtain ⟨entries, value, rfl⟩ := List.mem_map.mp member
    obtain ⟨⟨queueName, found⟩, inside, rfl⟩ := List.mem_map.mp value
    obtain ⟨entry, present, same⟩ := countReady_pos.mp nonzero
    refine ⟨queueName, entry, ?_, same⟩
    rw [Dict.getD, (ready.mem_entries_iff _ _).mp inside]
    exact present
  · intro given
    obtain ⟨queueName, entry, present, same⟩ := given
    exact Nat.lt_of_lt_of_le (countReady_pos.mpr ⟨entry, present, same⟩) (countReady_le ready id queueName)

/-! ### Lives -/

/-- The life of the task an id names, given the object it names. -/
def lifeOf (q : InMemoryTaskQueue) (id : String) (task : TaskRef) : Life where
  task := q.objects task
  ready := readyCount q.ready id
  delayed := delayedCount q.delayed id
  leased := decide (id ∈ q.inflight)
  dead := decide (id ∈ q.deadLetter)
  cancelled := decide (id ∈ q.cancelled)

def life (q : InMemoryTaskQueue) (id : String) : Option Life := (q.tasks.get? id).map (q.lifeOf id)

theorem life_isSome (q : InMemoryTaskQueue) (id : String) : (q.life id).isSome ↔ id ∈ q.tasks := by
  rw [Dict.mem_iff, life, Option.isSome_map]

theorem life_eq {q : InMemoryTaskQueue} {id : String} {task : TaskRef} (found : q.tasks.get? id = some task) :
    q.life id = some (q.lifeOf id task) := by rw [life, found]; rfl

theorem exists_of_life {q : InMemoryTaskQueue} {id : String} {l : Life} (alive : q.life id = some l) :
    ∃ task, q.tasks.get? id = some task ∧ l = q.lifeOf id task := by
  obtain ⟨task, found, same⟩ := Option.map_eq_some_iff.mp alive
  exact ⟨task, found, same.symm⟩

/-! ### Settling -/

/-- The two queues differ in their heaps only, and the difference settles each task. -/
structure Settled (q r : InMemoryTaskQueue) : Prop where
  tasks : r.tasks = q.tasks
  objects : r.objects = q.objects
  inflight : r.inflight = q.inflight
  deadLetter : r.deadLetter = q.deadLetter
  cancelled : r.cancelled = q.cancelled
  maxDepth : r.maxDepth = q.maxDepth
  lives : ∀ id task, q.tasks.get? id = some task → (q.lifeOf id task).Settles (r.lifeOf id task)

theorem Settled.refl (q : InMemoryTaskQueue) : Settled q q :=
  ⟨rfl, rfl, rfl, rfl, rfl, rfl, fun _ _ _ => .refl _⟩

theorem Settled.trans {q r s : InMemoryTaskQueue} (first : Settled q r) (last : Settled r s) : Settled q s where
  tasks := last.tasks.trans first.tasks
  objects := last.objects.trans first.objects
  inflight := last.inflight.trans first.inflight
  deadLetter := last.deadLetter.trans first.deadLetter
  cancelled := last.cancelled.trans first.cancelled
  maxDepth := last.maxDepth.trans first.maxDepth
  lives id task found :=
    (first.lives id task found).trans (last.lives id task (by rw [first.tasks]; exact found))

theorem Settled.life {q r : InMemoryTaskQueue} (settled : Settled q r) {id : String} {l : Life}
    (alive : q.life id = some l) : ∃ m, r.life id = some m ∧ l.Settles m := by
  obtain ⟨task, found, rfl⟩ := exists_of_life alive
  exact ⟨_, life_eq (by rw [settled.tasks]; exact found), settled.lives id task found⟩

/-! ### Promotion -/

theorem settled_promote {q : InMemoryTaskQueue} (rep : Represented q) {entry : DelayedEntry}
    {rest : List DelayedEntry} (popped : Heapq.heappop q.delayed = some (entry, rest)) {task : TaskRef}
    (found : q.tasks.get? entry.taskId = some task)
    (live : (q.objects task).status ≠ .cancelled ∧ (q.objects task).status ≠ .deadLettered) :
    Settled q { q with
      delayed := rest
      ready := q.ready.set (q.objects task).spec.queue
        (Heapq.heappush (q.ready.getD (q.objects task).spec.queue [])
          ⟨(q.objects task).spec.priority, (q.objects task).createdAt, q.sequence, (q.objects task).taskId⟩) } := by
  refine ⟨rfl, rfl, rfl, rfl, rfl, rfl, fun id here known => ?_⟩
  have less := delayedCount_pop popped id
  have more := readyCount_push q.ready id (q.objects task).spec.queue
    ⟨(q.objects task).spec.priority, (q.objects task).createdAt, q.sequence, (q.objects task).taskId⟩
  rw [rep.named _ _ found] at more ⊢
  by_cases same : entry.taskId = id
  · subst same
    obtain rfl : here = task := Option.some.inj (known.symm.trans found)
    rw [if_pos rfl] at more less
    exact Life.Settles.promote more less.symm live
  · rw [if_neg same] at more less
    simp only [lifeOf, more, less]
    exact Life.Settles.refl _

theorem settled_drop {q : InMemoryTaskQueue} {entry : DelayedEntry} {rest : List DelayedEntry}
    (popped : Heapq.heappop q.delayed = some (entry, rest)) {task : TaskRef}
    (found : q.tasks.get? entry.taskId = some task)
    (closed : (q.objects task).status = .cancelled ∨ (q.objects task).status = .deadLettered) :
    Settled q { q with delayed := rest } := by
  refine ⟨rfl, rfl, rfl, rfl, rfl, rfl, fun id here known => ?_⟩
  have less := delayedCount_pop popped id
  by_cases same : entry.taskId = id
  · subst same
    obtain rfl : here = task := Option.some.inj (known.symm.trans found)
    exact Life.Settles.drop (by simp only [lifeOf]; omega) closed
  · rw [if_neg same, Nat.add_zero] at less
    simp only [lifeOf, less]
    exact Life.Settles.refl _

theorem promoted_represented {q : InMemoryTaskQueue} (rep : Represented q) {entry : DelayedEntry}
    {rest : List DelayedEntry} (popped : Heapq.heappop q.delayed = some (entry, rest)) {task : TaskRef}
    (found : q.tasks.get? entry.taskId = some task) :
    Represented { q with
      delayed := rest
      ready := q.ready.set (q.objects task).spec.queue
        (Heapq.heappush (q.ready.getD (q.objects task).spec.queue [])
          ⟨(q.objects task).spec.priority, (q.objects task).createdAt, q.sequence, (q.objects task).taskId⟩) } := by
  have repRest := rep.setDelayed rest fun other member =>
    rep.delayed other ((Heapq.heappop_perm popped).mem_iff.mpr (List.mem_cons_of_mem _ member))
  apply repRest.setReady _ _
  intro other member
  rcases List.mem_cons.mp ((Heapq.heappush_perm _ _).mem_iff.mp member) with rfl | old
  · exact ⟨task, by rw [rep.named _ _ found]; exact found, rfl, rfl, rfl, le_refl _⟩
  · exact repRest.ready _ other old

theorem promoteLoop_settled (now : ℚ) (fuel : ℕ) {q : InMemoryTaskQueue} (rep : Represented q) :
    Represented (promoteLoop now fuel q) ∧ Settled q (promoteLoop now fuel q) := by
  induction fuel generalizing q with
  | zero => exact ⟨rep, .refl q⟩
  | succ fuel ih =>
    unfold promoteLoop
    split
    · exact ⟨rep, .refl q⟩
    · rename_i entry rest popped
      split
      · have members := (Heapq.heappop_perm popped).mem_iff (a := entry)
        have known := rep.delayed entry (members.mpr List.mem_cons_self)
        obtain ⟨task, found⟩ := Dict.exists_of_mem known
        have repRest := rep.setDelayed rest fun other member =>
          rep.delayed other ((Heapq.heappop_perm popped).mem_iff.mpr (List.mem_cons_of_mem _ member))
        simp only [found]
        split
        · rename_i closed
          obtain ⟨repLater, later⟩ := ih repRest
          exact ⟨repLater, (settled_drop popped found closed).trans later⟩
        · rename_i live
          obtain ⟨repLater, later⟩ := ih (promoted_represented rep popped found)
          exact ⟨repLater, (settled_promote rep popped found (not_or.mp live)).trans later⟩
      · exact ⟨rep, .refl q⟩

/-- Promotion fills a ready heap with due entries only. -/
theorem promoteLoop_due (now : ℚ) (fuel : ℕ) {q : InMemoryTaskQueue} (rep : Represented q) (id : String)
    (present : 0 < readyCount (promoteLoop now fuel q).ready id) :
    0 < readyCount q.ready id ∨ ∃ entry ∈ q.delayed, entry.taskId = id ∧ entry.availableAt ≤ now := by
  induction fuel generalizing q with
  | zero => exact Or.inl present
  | succ fuel ih =>
    unfold promoteLoop at present
    split at present
    · exact Or.inl present
    · rename_i entry rest popped
      have perm := Heapq.heappop_perm popped
      split at present
      · rename_i due
        have known := rep.delayed entry (perm.mem_iff.mpr List.mem_cons_self)
        obtain ⟨task, found⟩ := Dict.exists_of_mem known
        have repRest := rep.setDelayed rest fun other member =>
          rep.delayed other (perm.mem_iff.mpr (List.mem_cons_of_mem _ member))
        have older : (∃ other ∈ rest, other.taskId = id ∧ other.availableAt ≤ now) →
            ∃ other ∈ q.delayed, other.taskId = id ∧ other.availableAt ≤ now := by
          intro given
          obtain ⟨other, member, facts⟩ := given
          exact ⟨other, perm.mem_iff.mpr (List.mem_cons_of_mem _ member), facts⟩
        simp only [found] at present
        split at present
        · exact (ih repRest present).imp (fun here => here) older
        · have filed := promoted_represented rep popped found
          rcases ih filed present with more | later
          · rw [readyCount_push, rep.named _ _ found] at more
            by_cases same : entry.taskId = id
            · exact Or.inr ⟨entry, perm.mem_iff.mpr List.mem_cons_self, same, due⟩
            · rw [if_neg same] at more
              exact Or.inl more
          · exact Or.inr (older later)
      · exact Or.inl present

theorem promote_settled {q : InMemoryTaskQueue} (rep : Represented q) (now : ℚ) :
    Represented (q.promoteDelayedLocked now) ∧ Settled q (q.promoteDelayedLocked now) :=
  promoteLoop_settled now _ rep

end InMemoryTaskQueue

end TaskRunner
