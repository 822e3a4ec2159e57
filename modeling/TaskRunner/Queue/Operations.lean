import TaskRunner.Queue.Scanning

/-!
One lemma for each method: what it returns, which task it acts on, and that every other task is left as
it was or merely settled. Nothing raises but a full queue or an unknown id.
-/

namespace TaskRunner
open Base

namespace InMemoryTaskQueue

/-! ### Building blocks -/

theorem lifeOf_eq {r : InMemoryTaskQueue} {id : String} {task : TaskRef} {l : Life} (object : r.objects task = l.task)
    (ready : readyCount r.ready id = l.ready) (delayed : delayedCount r.delayed id = l.delayed)
    (leased : id ∈ r.inflight ↔ l.leased = true) (dead : id ∈ r.deadLetter ↔ l.dead = true)
    (cancelled : id ∈ r.cancelled ↔ l.cancelled = true) : r.lifeOf id task = l := by
  have leased' : decide (id ∈ r.inflight) = l.leased := Bool.eq_iff_iff.mpr (decide_eq_true_iff.trans leased)
  have dead' : decide (id ∈ r.deadLetter) = l.dead := Bool.eq_iff_iff.mpr (decide_eq_true_iff.trans dead)
  have cancelled' : decide (id ∈ r.cancelled) = l.cancelled :=
    Bool.eq_iff_iff.mpr (decide_eq_true_iff.trans cancelled)
  rw [lifeOf, object, ready, delayed, leased', dead', cancelled']

theorem lifeOf_assign_self (q : InMemoryTaskQueue) (id : String) (task : TaskRef) (f : TaskEnvelope → TaskEnvelope) :
    (q.assign task f).lifeOf id task = { q.lifeOf id task with task := f (q.objects task) } := by
  unfold lifeOf
  rw [assign_self]
  rfl

theorem lifeOf_assign_other (q : InMemoryTaskQueue) (id : String) {task other : TaskRef} (different : other ≠ task)
    (f : TaskEnvelope → TaskEnvelope) : (q.assign task f).lifeOf id other = q.lifeOf id other := by
  unfold lifeOf
  rw [assign_other q different]
  rfl

theorem readyCount_pushed (q : InMemoryTaskQueue) (task : TaskRef) (now : ℚ) (id : String) :
    readyCount (q.push task now).ready id = readyCount q.ready id +
      if (q.objects task).availableAt > now then 0 else if (q.objects task).taskId = id then 1 else 0 := by
  unfold push
  dsimp only
  split
  · rfl
  · exact readyCount_push q.ready id _ _

theorem delayedCount_pushed (q : InMemoryTaskQueue) (task : TaskRef) (now : ℚ) (id : String) :
    delayedCount (q.push task now).delayed id = delayedCount q.delayed id +
      if (q.objects task).availableAt > now then (if (q.objects task).taskId = id then 1 else 0) else 0 := by
  unfold push
  dsimp only
  split
  · exact delayedCount_push _ _ _
  · rfl

theorem lifeOf_push_other (q : InMemoryTaskQueue) {task : TaskRef} {id : String} (different : (q.objects task).taskId ≠ id)
    (now : ℚ) (other : TaskRef) : (q.push task now).lifeOf id other = q.lifeOf id other := by
  simp only [lifeOf, push_objects, push_inflight, push_deadLetter, push_cancelled, readyCount_pushed,
    delayedCount_pushed, if_neg different, ite_self, Nat.add_zero]

theorem lifeOf_push_self (q : InMemoryTaskQueue) {task : TaskRef} {id : String} (same : (q.objects task).taskId = id)
    (now : ℚ) :
    (q.push task now).lifeOf id task =
      { q.lifeOf id task with
        ready := if (q.objects task).availableAt > now then readyCount q.ready id else readyCount q.ready id + 1
        delayed := if (q.objects task).availableAt > now then delayedCount q.delayed id + 1
          else delayedCount q.delayed id } := by
  simp only [lifeOf, push_objects, push_inflight, push_deadLetter, push_cancelled, readyCount_pushed,
    delayedCount_pushed, if_pos same]
  split <;> rfl

theorem lifeOf_eraseInflight_self (q : InMemoryTaskQueue) (id : String) (task : TaskRef) :
    { q with inflight := q.inflight.erase id }.lifeOf id task = { q.lifeOf id task with leased := false } := by
  simp [lifeOf, Dict.mem_erase]

theorem lifeOf_eraseInflight_other (q : InMemoryTaskQueue) {id other : String} (different : other ≠ id)
    (task : TaskRef) : { q with inflight := q.inflight.erase id }.lifeOf other task = q.lifeOf other task := by
  simp [lifeOf, Dict.mem_erase, different]

theorem mem_inflight_known {q : InMemoryTaskQueue} (rep : Represented q) {id : String}
    (unknown : q.tasks.get? id = none) : id ∉ q.inflight := by
  intro leased
  exact (Dict.get?_eq_none _ _).mp unknown (rep.inflight_known leased)

theorem known_of_waiting {q : InMemoryTaskQueue} (rep : Represented q) {id : String}
    (waiting : 0 < readyCount q.ready id + delayedCount q.delayed id) : id ∈ q.tasks := by
  rcases Nat.add_pos_iff_pos_or_pos.mp waiting with ready | delayed
  · obtain ⟨queueName, entry, present, same⟩ := readyCount_pos.mp ready
    obtain ⟨task, found, _⟩ := rep.ready queueName entry present
    exact same ▸ Dict.mem_of_get? found
  · obtain ⟨entry, present, same⟩ := delayedCount_pos.mp delayed
    exact same ▸ rep.delayed entry present

/-! ### Submission -/

/-- What a submit that is let in leaves behind. -/
structure Submitted (q : InMemoryTaskQueue) (id : String) (r : InMemoryTaskQueue) : Prop where
  represented : Represented r
  tasks : r.tasks = q.tasks.set id q.allocated
  maxDepth : r.maxDepth = q.maxDepth
  room : q.depth < q.maxDepth
  others : ∀ other task, q.tasks.get? other = some task → r.lifeOf other task = q.lifeOf other task
  newborn : (r.lifeOf id q.allocated).Newborn

theorem submit_spec {q : InMemoryTaskQueue} (rep : Represented q) (task : Submission) (new : task.taskId ∉ q.tasks)
    (clock : Clock) :
    (q.maxDepth ≤ q.depth ∧ q.submit task.envelope clock = (.error (.queueFull q.depth q.maxDepth), q)) ∨
    ∃ r, q.submit task.envelope clock = (.ok q.allocated, r) ∧ Submitted q task.taskId r := by
  unfold submit
  split
  · rename_i full
    exact Or.inl ⟨full, rfl⟩
  · rename_i room
    right
    let filed : TaskEnvelope := { task.envelope with
      spec := task.envelope.spec.normalized, status := .queued
      availableAt := clock 0 + task.envelope.spec.normalized.delaySeconds }
    let registered : InMemoryTaskQueue :=
      { (q.allocate filed).2 with tasks := q.tasks.set task.taskId q.allocated }
    have repRegistered : Represented registered := rep.register filed new
    have known : registered.tasks.get? task.taskId = some q.allocated := Dict.get?_set_self ..
    have object : registered.objects q.allocated = filed := Function.update_self ..
    refine ⟨registered.push q.allocated (clock 1), rfl, repRegistered.push known (clock 1), by simp [registered],
      by simp [registered, allocate], not_le.mp room, ?_, ?_⟩
    · intro other ref found
      have different : (registered.objects q.allocated).taskId ≠ other := by
        rw [object]
        rintro rfl
        exact new (Dict.mem_of_get? found)
      rw [lifeOf_push_other registered different]
      have older : registered.objects ref = q.objects ref :=
        Function.update_of_ne (Nat.ne_of_lt (rep.allocated other ref found)) ..
      simp only [lifeOf, older]
      rfl
    · have idle : readyCount q.ready task.taskId + delayedCount q.delayed task.taskId = 0 :=
        Nat.eq_zero_of_not_pos fun waiting => new (known_of_waiting rep waiting)
      have same : (registered.objects q.allocated).taskId = task.taskId := by rw [object]; rfl
      rw [lifeOf_push_self registered same]
      refine ⟨?_, ?_, ?_, ?_, ?_, ?_⟩
      · show (registered.objects q.allocated).attempts = 0
        rw [object]; rfl
      · show (registered.objects q.allocated).status = .queued
        rw [object]
      · show 0 ≤ (registered.objects q.allocated).spec.maxRetries
        rw [object]
        exact le_max_left _ _
      · show (registered.objects q.allocated).assignedWorker = none ∧
          (registered.objects q.allocated).leaseDeadline = none
        rw [object]
        exact ⟨rfl, rfl⟩
      · show (if _ then readyCount q.ready task.taskId else readyCount q.ready task.taskId + 1) +
          (if _ then delayedCount q.delayed task.taskId + 1 else delayedCount q.delayed task.taskId) = 1
        by_cases late : (registered.objects q.allocated).availableAt > clock 1
        · rw [if_pos late, if_pos late]
          omega
        · rw [if_neg late, if_neg late]
          omega
      · refine ⟨decide_eq_false fun leased => new (rep.inflight_known leased), decide_eq_false fun dead => ?_,
          decide_eq_false fun marked => new (rep.cancelled _ marked)⟩
        obtain ⟨ref, found⟩ := Dict.exists_of_mem dead
        exact new (Dict.mem_of_get? (rep.deadLetter _ _ found))

theorem submitMany_cons {q r : InMemoryTaskQueue} {task : TaskEnvelope} {clock : Clock} {ref : TaskRef}
    (result : q.submit task clock = (.ok ref, r)) (rest : List TaskEnvelope) :
    (q.submitMany (task :: rest) clock).2 = (r.submitMany rest (clock.later 2)).2 := by
  rw [submitMany, result]
  dsimp only
  split <;> rename_i later <;> rw [later]

/-- What is new and distinct in a batch is new to the queue its first task went into. -/
theorem fresh_of_registered {q r : InMemoryTaskQueue} {task : Submission} {ref : TaskRef}
    (tasks : r.tasks = q.tasks.set task.taskId ref) {rest : List Submission}
    (new : ∀ other ∈ task :: rest, other.taskId ∉ q.tasks)
    (distinct : ((task :: rest).map Submission.taskId).Nodup) : ∀ other ∈ rest, other.taskId ∉ r.tasks := by
  intro other member known
  rw [tasks, Dict.mem_set] at known
  rcases known with same | old
  · exact (List.nodup_cons.mp distinct).1 (same ▸ List.mem_map_of_mem member)
  · exact new other (List.mem_cons_of_mem _ member) old

/-- A batch keeps every older task as it was; what it lets in enters as new tasks do. -/
theorem submitMany_spec {q : InMemoryTaskQueue} (rep : Represented q) (batch : List Submission)
    (new : ∀ task ∈ batch, task.taskId ∉ q.tasks) (distinct : (batch.map Submission.taskId).Nodup) (clock : Clock) :
    Represented (q.submitMany (batch.map Submission.envelope) clock).2 ∧
    (q.submitMany (batch.map Submission.envelope) clock).2.maxDepth = q.maxDepth ∧
    (∀ other l, q.life other = some l →
      (q.submitMany (batch.map Submission.envelope) clock).2.life other = some l) ∧
    ∀ other l, other ∉ q.tasks → (q.submitMany (batch.map Submission.envelope) clock).2.life other = some l →
      l.Newborn := by
  induction batch generalizing q clock with
  | nil =>
    refine ⟨rep, rfl, fun _ _ alive => alive, fun other l unknown alive => ?_⟩
    exact (unknown ((life_isSome q other).mp (Option.isSome_of_eq_some alive))).elim
  | cons task rest ih =>
    rw [List.map_cons]
    rcases submit_spec rep task (new task List.mem_cons_self) clock with ⟨_, result⟩ | ⟨r, result, submitted⟩
    · rw [submitMany, result]
      refine ⟨rep, rfl, fun _ _ alive => alive, fun other l unknown alive => ?_⟩
      exact (unknown ((life_isSome q other).mp (Option.isSome_of_eq_some alive))).elim
    · rw [submitMany_cons result]
      have fresh := fresh_of_registered submitted.tasks new distinct
      obtain ⟨repLater, depth, older, newborn⟩ :=
        ih submitted.represented fresh (List.nodup_cons.mp distinct).2 (clock.later 2)
      have kept : ∀ other l, q.life other = some l → r.life other = some l := by
        intro other l alive
        obtain ⟨ref, found, rfl⟩ := exists_of_life alive
        have different : other ≠ task.taskId := by
          rintro rfl
          exact new task List.mem_cons_self (Dict.mem_of_get? found)
        rw [life_eq (by rw [submitted.tasks, Dict.get?_set_ne _ different]; exact found),
          submitted.others other ref found]
      have here : r.life task.taskId = some (r.lifeOf task.taskId q.allocated) :=
        life_eq (by rw [submitted.tasks, Dict.get?_set_self])
      have newer : ∀ other l, other ∉ q.tasks →
          (r.submitMany (rest.map Submission.envelope) (clock.later 2)).2.life other = some l → l.Newborn := by
        intro other l unknown alive
        by_cases same : other = task.taskId
        · rw [same, older _ _ here, Option.some.injEq] at alive
          rw [← alive]
          exact submitted.newborn
        · refine newborn other l (fun known => ?_) alive
          rw [submitted.tasks, Dict.mem_set] at known
          exact known.elim same unknown
      exact ⟨repLater, depth.trans submitted.maxDepth, fun other l alive => older other l (kept other l alive),
        newer⟩

/-! ### Reservation -/

theorem readyCount_take {ready : Dict String (List ReadyEntry)} {queueName : String} {entry : ReadyEntry}
    {rest : List ReadyEntry} (perm : (ready.getD queueName []).Perm (entry :: rest)) (id : String) :
    readyCount ready id = readyCount (ready.set queueName rest) id + if entry.taskId = id then 1 else 0 := by
  have sum := readyCount_set ready id queueName rest
  have old := countReady_perm id perm
  have split : countReady id (entry :: rest) = countReady id rest + if entry.taskId = id then 1 else 0 := by
    simp [countReady, List.countP_cons]
  omega

/-- What a pass of `reserve` that returns a task leaves behind. -/
structure Dispatched (q : InMemoryTaskQueue) (worker : WorkerInfo) (completed : Finset String) (now deadline : ℚ)
    (id : String) (task : TaskRef) (r : InMemoryTaskQueue) : Prop where
  found : q.tasks.get? id = some task
  live : id ∉ q.cancelled
  accepts : worker.accepts (q.objects task) = true
  dependencies : (q.objects task).spec.dependsOn ⊆ completed
  due : 0 < readyCount q.ready id ∨ ∃ entry ∈ q.delayed, entry.taskId = id ∧ entry.availableAt ≤ now
  represented : Represented r
  tasks : r.tasks = q.tasks
  maxDepth : r.maxDepth = q.maxDepth
  cancelled : r.cancelled = q.cancelled
  deadLetter : r.deadLetter = q.deadLetter
  inflight : r.inflight = q.inflight.set id task
  objects : r.objects = Function.update q.objects task { q.objects task with
    status := .running, assignedWorker := some worker.workerId, leaseDeadline := some deadline }
  taken : ∃ m, (q.lifeOf id task).Settles m ∧ 0 < m.ready ∧
    r.lifeOf id task = m.dispatch worker.workerId deadline
  others : ∀ other ref, q.tasks.get? other = some ref → other ≠ id →
    (q.lifeOf other ref).Settles (r.lifeOf other ref)

theorem reserve_spec {q : InMemoryTaskQueue} (rep : Represented q) (worker : WorkerInfo) (completed : Finset String)
    (leaseSeconds : ℚ) (clock : Clock) :
    (∃ r, q.reserve worker completed leaseSeconds clock = (.ok none, r) ∧ Represented r ∧ Settled q r) ∨
    ∃ r id task, q.reserve worker completed leaseSeconds clock = (.ok (some task), r) ∧
      Dispatched q worker completed (clock 0) (clock 1 + leaseSeconds) id task r := by
  obtain ⟨repPromoted, promoted⟩ := promote_settled rep (clock 0)
  unfold reserve
  rcases popEligibleLocked_spec repPromoted worker completed with ⟨ready, result, repR, scanned, _⟩ |
      ⟨ready, queueName, entry, task, rest, result, popped⟩
  · rw [result]
    exact Or.inl ⟨_, rfl, repR, promoted.trans scanned.settled⟩
  · rw [result]
    right
    obtain ⟨present, live⟩ := mem_uncancelled.mp popped.listed
    let r : InMemoryTaskQueue := { q.promoteDelayedLocked (clock 0) with ready }
    have settled : Settled q r := promoted.trans popped.scanned.settled
    have found := popped.found
    have accepts := popped.accepts
    have dependencies := popped.dependencies
    have repTaken := popped.represented
    rw [promoted.tasks] at found
    rw [promoted.cancelled] at live
    rw [promoted.objects] at accepts dependencies
    have known : r.tasks.get? entry.taskId = some task := by rw [settled.tasks]; exact found
    have name : (r.objects task).taskId = entry.taskId := repTaken.named _ _ known
    let taken : InMemoryTaskQueue := { r with ready := r.ready.set queueName rest }
    let running : TaskEnvelope → TaskEnvelope := fun t => { t with
      status := .running, assignedWorker := some worker.workerId, leaseDeadline := some (clock 1 + leaseSeconds) }
    have repRunning : Represented (taken.assign task running) := repTaken.assign task ⟨rfl, rfl, rfl⟩
    have filed : ((taken.assign task running).objects task).taskId = entry.taskId := by
      rw [assign_self]
      exact name
    refine ⟨{ taken.assign task running with inflight :=
      (taken.assign task running).inflight.set ((taken.assign task running).objects task).taskId task },
      entry.taskId, task, rfl, ?_⟩
    rw [filed]
    have count : ∀ id, readyCount r.ready id =
        readyCount taken.ready id + if entry.taskId = id then 1 else 0 := readyCount_take popped.taken
    have due := promoteLoop_due (clock 0) q.delayed.length rep entry.taskId
      (readyCount_pos.mpr ⟨queueName, entry, present, rfl⟩)
    refine ⟨found, live, accepts, dependencies, due, repRunning.setInflight known, settled.tasks, settled.maxDepth,
      settled.cancelled, settled.deadLetter, ?_, ?_, ?_, ?_⟩
    · show r.inflight.set entry.taskId task = _
      rw [settled.inflight]
    · show Function.update r.objects task _ = _
      rw [settled.objects]
    · have here := count entry.taskId
      rw [if_pos rfl] at here
      refine ⟨r.lifeOf entry.taskId task, settled.lives _ _ found, ?_, ?_⟩
      · show 0 < readyCount r.ready entry.taskId
        omega
      · have less : readyCount taken.ready entry.taskId = readyCount r.ready entry.taskId - 1 := by omega
        apply lifeOf_eq
        · exact assign_self taken task running
        · exact less
        · rfl
        · exact iff_of_true ((Dict.mem_set ..).mpr (Or.inl rfl)) rfl
        · exact decide_eq_true_iff.symm
        · exact decide_eq_true_iff.symm
    · intro other ref known' different
      have here := count other
      rw [if_neg (Ne.symm different), Nat.add_zero] at here
      have apart : ref ≠ task := rep.distinct found known' different
      have same : { taken.assign task running with
          inflight := (taken.assign task running).inflight.set entry.taskId task }.lifeOf other ref =
          r.lifeOf other ref := by
        apply lifeOf_eq
        · exact assign_other taken apart running
        · exact here.symm
        · rfl
        · exact (Dict.mem_set ..).trans ((or_iff_right different).trans decide_eq_true_iff.symm)
        · exact decide_eq_true_iff.symm
        · exact decide_eq_true_iff.symm
      rw [same]
      exact settled.lives other ref known'

/-! ### The calls that name a task -/

/-- What a call that acts on one known task leaves behind. -/
structure Acted (q : InMemoryTaskQueue) (id : String) (task : TaskRef) (act : Life → Life)
    (r : InMemoryTaskQueue) : Prop where
  represented : Represented r
  tasks : r.tasks = q.tasks
  maxDepth : r.maxDepth = q.maxDepth
  self : r.lifeOf id task = act (q.lifeOf id task)
  others : ∀ other ref, q.tasks.get? other = some ref → other ≠ id → r.lifeOf other ref = q.lifeOf other ref

theorem popInflight_known {q : InMemoryTaskQueue} (rep : Represented q) {id : String} {task : TaskRef}
    (found : q.tasks.get? id = some task) :
    q.popInflight id = (some task, { q with inflight := q.inflight.erase id }) := by
  rw [Prod.ext_iff]
  exact ⟨(rep.popInflight_fst id).trans found, rfl⟩

theorem popInflight_unknown {q : InMemoryTaskQueue} (rep : Represented q) {id : String}
    (unknown : q.tasks.get? id = none) : q.popInflight id = (none, q) := by
  rw [Prod.ext_iff]
  refine ⟨(rep.popInflight_fst id).trans unknown, ?_⟩
  show { q with inflight := q.inflight.erase id } = q
  rw [Dict.erase_of_notMem (mem_inflight_known rep unknown)]

theorem complete_spec {q : InMemoryTaskQueue} (rep : Represented q) {id : String} {task : TaskRef}
    (found : q.tasks.get? id = some task) (status : TaskStatus) (final : status ≠ .deadLettered)
    (error : Option String) :
    ∃ r, q.complete id status error = (.ok task, r) ∧
      Acted q id task (fun l => l.complete status error) r := by
  unfold complete
  rw [popInflight_known rep found]
  simp only [if_neg final]
  refine ⟨_, rfl, (rep.eraseInflight id).assign task ⟨rfl, rfl, rfl⟩, rfl, rfl, ?_, ?_⟩
  · rw [lifeOf_assign_self, lifeOf_eraseInflight_self]
    rfl
  · intro other ref known different
    rw [lifeOf_assign_other _ _ (rep.distinct found known different), lifeOf_eraseInflight_other q different]

theorem complete_unknown {q : InMemoryTaskQueue} (rep : Represented q) {id : String}
    (unknown : q.tasks.get? id = none) (status : TaskStatus) (error : Option String) :
    q.complete id status error = (.error (.taskNotFound id), q) := by
  unfold complete
  rw [popInflight_unknown rep unknown]

theorem retry_spec {q : InMemoryTaskQueue} (rep : Represented q) {id : String} {task : TaskRef}
    (found : q.tasks.get? id = some task) (reason : String) (clock : Clock) :
    ∃ r, q.retry id reason clock = (.ok task, r) ∧
      Acted q id task (fun l => l.retry reason (clock 0) (clock 1)) r := by
  have name := rep.named id task found
  have apart : ∀ other ref, q.tasks.get? other = some ref → other ≠ id → ref ≠ task := fun other ref known =>
    rep.distinct found known
  let failed : TaskEnvelope → TaskEnvelope := fun t => { t with
    attempts := t.attempts + 1, lastError := some reason, assignedWorker := none, leaseDeadline := none }
  let popped : InMemoryTaskQueue := { q with inflight := q.inflight.erase id }
  have repFailed : Represented (popped.assign task failed) := (rep.eraseInflight id).assign task ⟨rfl, rfl, rfl⟩
  unfold retry
  rw [popInflight_known rep found]
  simp only []
  split
  · -- the budget is used up
    rename_i exceeded
    have spent : ¬ (q.lifeOf id task).retryable := by
      rw [assign_self] at exceeded
      exact not_le.mpr exceeded
    have repClosed := repFailed.assign task (f := fun t => { t with status := .deadLettered }) ⟨rfl, rfl, rfl⟩
    have filed : ((popped.assign task failed).objects task).taskId = id := by rw [assign_self]; exact name
    rw [filed]
    refine ⟨_, rfl, repClosed.setDeadLetter found, rfl, rfl, ?_, ?_⟩
    · simp only [Life.retry, if_neg spent]
      apply lifeOf_eq
      · rw [assign_self, assign_self]
        rfl
      · rfl
      · rfl
      · exact iff_of_false (fun leased => ((Dict.mem_erase ..).mp leased).1 rfl) Bool.false_ne_true
      · exact iff_of_true ((Dict.mem_set ..).mpr (Or.inl rfl)) rfl
      · exact decide_eq_true_iff.symm
    · intro other ref known different
      apply lifeOf_eq
      · rw [assign_other _ (apart other ref known different), assign_other _ (apart other ref known different)]
        rfl
      · rfl
      · rfl
      · exact (Dict.mem_erase ..).trans ((and_iff_right different).trans decide_eq_true_iff.symm)
      · exact (Dict.mem_set ..).trans ((or_iff_right different).trans decide_eq_true_iff.symm)
      · exact decide_eq_true_iff.symm
  · rename_i within
    have budget : (q.lifeOf id task).retryable := by
      rw [assign_self] at within
      exact not_lt.mp within
    let waiting : TaskEnvelope → TaskEnvelope := fun t => { t with
      status := .retrying, availableAt := clock 0 + t.spec.retryBackoffSeconds * t.attempts }
    have repWaiting := repFailed.assign task (f := waiting) ⟨rfl, rfl, rfl⟩
    refine ⟨_, rfl, repWaiting.push found (clock 1), ?_, ?_, ?_, ?_⟩
    · rw [push_tasks]; rfl
    · rw [push_maxDepth]; rfl
    · have filed : (((popped.assign task failed).assign task waiting).objects task).taskId = id := by
        rw [assign_self, assign_self]; exact name
      show (((popped.assign task failed).assign task waiting).push task (clock 1)).lifeOf id task = _
      rw [lifeOf_push_self _ filed, lifeOf_assign_self, lifeOf_assign_self, lifeOf_eraseInflight_self]
      simp only [Life.retry, if_pos budget, assign_self]
      rfl
    · intro other ref known different
      have filed : (((popped.assign task failed).assign task waiting).objects task).taskId ≠ other := by
        rw [assign_self, assign_self]
        show (q.objects task).taskId ≠ other
        rw [name]
        exact Ne.symm different
      show (((popped.assign task failed).assign task waiting).push task (clock 1)).lifeOf other ref = _
      rw [lifeOf_push_other _ filed, lifeOf_assign_other _ _ (apart other ref known different),
        lifeOf_assign_other _ _ (apart other ref known different), lifeOf_eraseInflight_other q different]

theorem retry_unknown {q : InMemoryTaskQueue} (rep : Represented q) {id : String}
    (unknown : q.tasks.get? id = none) (reason : String) (clock : Clock) :
    q.retry id reason clock = (.error (.taskNotFound id), q) := by
  unfold retry
  rw [popInflight_unknown rep unknown]

theorem cancel_spec {q : InMemoryTaskQueue} (rep : Represented q) {id : String} {task : TaskRef}
    (found : q.tasks.get? id = some task) :
    ∃ r, q.cancel id = (.ok task, r) ∧ Acted q id task Life.cancel r := by
  let marked : TaskEnvelope → TaskEnvelope := fun t => { t with status := .cancelled }
  unfold cancel
  rw [found]
  have repCancelled := rep.assign task (f := marked) ⟨rfl, rfl, rfl⟩
  have known : id ∈ q.tasks := Dict.mem_of_get? found
  refine ⟨_, rfl, (repCancelled.insertCancelled known).eraseInflight id, rfl, rfl, ?_, ?_⟩
  · apply lifeOf_eq
    · exact assign_self q task marked
    · rfl
    · rfl
    · exact iff_of_false (fun leased => ((Dict.mem_erase ..).mp leased).1 rfl) Bool.false_ne_true
    · exact decide_eq_true_iff.symm
    · exact iff_of_true (Finset.mem_insert_self ..) rfl
  · intro other ref known' different
    apply lifeOf_eq
    · exact assign_other q (rep.distinct found known' different) marked
    · rfl
    · rfl
    · exact (Dict.mem_erase ..).trans ((and_iff_right different).trans decide_eq_true_iff.symm)
    · exact decide_eq_true_iff.symm
    · exact Finset.mem_insert.trans ((or_iff_right different).trans decide_eq_true_iff.symm)

theorem cancel_unknown {q : InMemoryTaskQueue} {id : String} (unknown : q.tasks.get? id = none) :
    q.cancel id = (.error (.taskNotFound id), q) := by
  unfold cancel
  rw [unknown]

/-! ### One pass of lease expiry -/

theorem fst_ne_of_nodup {lease : String × TaskRef} {rest : List (String × TaskRef)}
    (distinct : ((lease :: rest).map Prod.fst).Nodup) {other : String} {ref : TaskRef} (member : (other, ref) ∈ rest) :
    other ≠ lease.1 := by
  intro same
  rw [List.map_cons, List.nodup_cons, ← same] at distinct
  exact distinct.1 (List.mem_map_of_mem (f := Prod.fst) member)

/-- The queue as the end of a lease leaves it for the retry of its task. -/
def freed (q : InMemoryTaskQueue) (id : String) (task : TaskRef) : InMemoryTaskQueue :=
  { q with inflight := q.inflight.erase id }.assign task fun t => { t with assignedWorker := none }

theorem Represented.freed {q : InMemoryTaskQueue} (rep : Represented q) (id : String) (task : TaskRef) :
    Represented (q.freed id task) := (rep.eraseInflight id).assign task ⟨rfl, rfl, rfl⟩

theorem freed_self (q : InMemoryTaskQueue) (id : String) (task : TaskRef) :
    (q.freed id task).objects task = { q.objects task with assignedWorker := none } := assign_self ..

theorem freed_other (q : InMemoryTaskQueue) (id : String) {task other : TaskRef} (different : other ≠ task) :
    (q.freed id task).objects other = q.objects other := assign_other _ different _

theorem lifeOf_freed_self (q : InMemoryTaskQueue) (id : String) (task : TaskRef) :
    (q.freed id task).lifeOf id task =
      { q.lifeOf id task with task := { q.objects task with assignedWorker := none }, leased := false } := by
  unfold freed
  rw [lifeOf_assign_self, lifeOf_eraseInflight_self]

theorem lifeOf_freed_other {q : InMemoryTaskQueue} (rep : Represented q) {id other : String} {task ref : TaskRef}
    (found : q.tasks.get? id = some task) (known : q.tasks.get? other = some ref) (different : other ≠ id) :
    (q.freed id task).lifeOf other ref = q.lifeOf other ref := by
  unfold freed
  rw [lifeOf_assign_other _ _ (rep.distinct found known different), lifeOf_eraseInflight_other q different]

theorem expired_congr {q r : InMemoryTaskQueue} {task : TaskRef} (same : r.objects task = q.objects task) (now : ℚ) :
    r.expired now task = q.expired now task := by
  unfold expired
  rw [same]

/-- A lease that ran out is taken out and its task retried before the rest of the list. -/
theorem requeueLoop_due {q r : InMemoryTaskQueue} {now : ℚ} {id : String} {task ref : TaskRef} {clock : Clock}
    (due : q.expired now task = true) (retried : (q.freed id task).retry id "lease expired" clock = (.ok ref, r))
    (rest : List (String × TaskRef)) :
    requeueLoop now ((id, task) :: rest) q clock =
      ((requeueLoop now rest r (clock.later 2)).1.map (ref :: ·), (requeueLoop now rest r (clock.later 2)).2) := by
  unfold freed at retried
  rw [requeueLoop, if_pos due]
  dsimp only
  rw [retried]
  dsimp only
  cases requeueLoop now rest r (clock.later 2) with
  | mk outcome s => cases outcome <;> rfl

theorem requeueLoop_early {q : InMemoryTaskQueue} {now : ℚ} {task : TaskRef} (early : ¬ q.expired now task = true)
    (id : String) (rest : List (String × TaskRef)) (clock : Clock) :
    requeueLoop now ((id, task) :: rest) q clock = requeueLoop now rest q clock := if_neg early

end InMemoryTaskQueue

end TaskRunner
