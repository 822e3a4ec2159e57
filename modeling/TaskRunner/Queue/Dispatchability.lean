import TaskRunner.Queue.Changes
import TaskRunner.Queue.Placement
import TaskRunner.Queue.Punctuality

/-!
When a task that waits can be had. A task with an entry that is due at its own `available_at` is handed to a worker that
may have nothing else, unless its id is in the cancelled set, from which no call ever takes it out.
-/

namespace TaskRunner
open Base

/-- The id of the task a call is about. -/
def Call.names : Call → Option String
  | .complete taskId _ _ | .retry taskId _ _ | .cancel taskId => some taskId
  | _ => none

namespace InMemoryTaskQueue

/-! ### A waiting task has an entry that is due -/

/-- Every task that waits and is not cancelled has an entry that lets it go when it is available. -/
def Awaited (q : InMemoryTaskQueue) : Prop :=
  ∀ id task, q.task? id = some task → task.status.waits = true → id ∉ q.cancelled → q.Opens id task.availableAt

section Waiting

variable {q r : InMemoryTaskQueue} {id : String} {t : ℚ}

theorem Admitted.awaited {task : Submission} {clock : Clock} (rep : Represented q)
    (admitted : Admitted q task clock r) (awaited : Awaited q) : Awaited r := by
  intro id after named waits live
  obtain ⟨ref, found, rfl⟩ := Option.map_eq_some_iff.mp named
  have more : q.heapEntries ⊆ r.heapEntries := fun entry member =>
    admitted.entries.mem_iff.mpr (List.mem_cons_of_mem _ member)
  rw [admitted.tasks, Dict.get?_set] at found
  rw [admitted.cancelled] at live
  split at found
  · rename_i same
    obtain rfl := Option.some.inj found
    rw [admitted.own]
    exact opens_filed same.symm (admitted.entries.mem_iff.mpr List.mem_cons_self)
  · rw [admitted.other rep found] at waits ⊢
    exact (awaited id _ (by rw [task?, found]; rfl) waits live).more more

theorem Retried.awaited {retriedId : String} {task : TaskRef} {reason : String} {clock : Clock} (rep : Represented q)
    (known : q.tasks.get? retriedId = some task) (retried : Retried q retriedId task reason clock r)
    (awaited : Awaited q) : Awaited r := by
  intro id after named waits live
  obtain ⟨ref, found, rfl⟩ := Option.map_eq_some_iff.mp named
  rw [retried.tasks] at found
  rw [retried.cancelled] at live
  have name := rep.named retriedId task known
  by_cases budget : (q.objects task).attempts + 1 ≤ (q.objects task).spec.maxRetries
  · obtain ⟨_, _, entries⟩ := retried.retrying budget
    by_cases same : id = retriedId
    · subst same
      obtain rfl : task = ref := Option.some.inj (known.symm.trans found)
      refine opens_filed ?_ (entries.mem_iff.mpr List.mem_cons_self)
      rw [retried.own, failed_taskId, name]
    · rw [retried.other rep known found same] at waits ⊢
      apply (awaited id _ (by rw [task?, found]; rfl) waits live).more
      intro entry member
      exact entries.mem_iff.mpr (List.mem_cons_of_mem _ member)
  · obtain ⟨_, _, ready, delayed⟩ := retried.buried budget
    by_cases same : id = retriedId
    · subst same
      obtain rfl : task = ref := Option.some.inj (known.symm.trans found)
      rw [retried.own, failed_buried budget] at waits
      cases waits
    · rw [retried.other rep known found same] at waits ⊢
      apply (awaited id _ (by rw [task?, found]; rfl) waits live).more
      intro entry member
      unfold heapEntries
      rw [ready, delayed]
      exact member

/-- A task that waits after an annotation has waited before, until the same time. -/
theorem Annotated.waited (annotated : Annotated q r) {after : TaskEnvelope} (named : r.task? id = some after)
    (waits : after.status.waits = true) :
    ∃ task, q.task? id = some task ∧ task.status.waits = true ∧ task.availableAt = after.availableAt := by
  obtain ⟨ref, found, rfl⟩ := Option.map_eq_some_iff.mp named
  have status : (r.objects ref).status = (q.objects ref).status :=
    (annotated.status ref).resolve_right fun stopped => by rw [stopped] at waits; cases waits
  refine ⟨q.objects ref, by rw [task?, ← annotated.tasks, found]; rfl, ?_, (annotated.filed ref).2.2.1.symm⟩
  rw [← status]
  exact waits

/-- A promotion moves the due entry of a task to the heap of its queue. -/
theorem arrives_of_due {task : TaskEnvelope} (named : q.task? id = some task) (live : Promotable task)
    {entry : DelayedEntry} (member : entry ∈ q.delayed) (same : entry.taskId = id) {now : ℚ}
    (due : entry.availableAt ≤ now) : ∃ own ∈ q.arrivals now task.spec.queue, own.taskId = id := by
  refine ⟨⟨task.spec.priority, task.createdAt, q.sequence, entry.taskId⟩, ?_, same⟩
  apply List.mem_filterMap.mpr
  refine ⟨entry, member, ?_⟩
  simp only [arrival, if_pos due, same, named, live, and_self, if_true]

theorem Promoted.opens {p : InMemoryTaskQueue} {now : ℚ} (promoted : Promoted q now p) {task : TaskEnvelope}
    (named : q.task? id = some task) (live : Promotable task) (opens : q.Opens id t) : p.Opens id t := by
  rcases opens with ready | ⟨entry, member, same, due⟩
  · obtain ⟨queueName, entry, present, same⟩ := readyCount_pos.mp ready
    refine Or.inl (readyCount_pos.mpr ⟨queueName, entry, ?_, same⟩)
    exact (promoted.ready queueName).mem_iff.mpr (List.mem_append_left _ present)
  · by_cases early : entry.availableAt ≤ now
    · left
      obtain ⟨own, arrives, name⟩ := arrives_of_due named live member same early
      refine readyCount_pos.mpr ⟨task.spec.queue, own, ?_, name⟩
      exact (promoted.ready task.spec.queue).mem_iff.mpr (List.mem_append_right _ arrives)
    · refine Or.inr ⟨entry, ?_, same, due⟩
      exact promoted.delayed.mem_iff.mpr (List.mem_filter.mpr ⟨member, decide_eq_true (not_le.mp early)⟩)

theorem promotable_of_waits {task : TaskEnvelope} (waits : task.status.waits = true) : Promotable task := by
  constructor
  · intro cancelled
    rw [cancelled] at waits
    cases waits
  · intro dead
    rw [dead] at waits
    cases waits

theorem Swept.opens_unless {p : InMemoryTaskQueue} {worker : WorkerInfo} {taken : Option (String × ReadyEntry)}
    (swept : Swept p worker taken r) (live : id ∉ p.cancelled)
    (left : ∀ queueName entry, taken = some (queueName, entry) → entry.taskId ≠ id) (opens : p.Opens id t) :
    r.Opens id t := by
  rcases opens with ready | delayed
  · obtain ⟨queueName, entry, present, same⟩ := readyCount_pos.mp ready
    refine Or.inl (readyCount_pos.mpr ⟨queueName, entry, ?_, same⟩)
    by_cases listed : queueName ∈ worker.queues
    · have kept : entry ∈ p.uncancelled (p.ready.getD queueName []) :=
        mem_uncancelled.mpr ⟨present, by rw [same]; exact live⟩
      apply (List.mem_append.mp ((swept.inside queueName listed).mem_iff.mpr kept)).resolve_left
      intro gone
      unfold takenFrom at gone
      split at gone
      · cases gone
      · rename_i name other
        split at gone
        · rw [List.mem_singleton.mp gone] at same
          exact left name other rfl same
        · cases gone
    · rw [swept.outside queueName listed]
      exact present
  · rw [← swept.delayed] at delayed
    exact Or.inr delayed

theorem kept_awaited : Kept Awaited fun _ _ => True where
  admitted rep _ admitted awaited := admitted.awaited rep awaited
  retried rep known retried awaited := retried.awaited rep known awaited
  annotated := by
    intro q r annotated ready delayed awaited id after named waits live
    obtain ⟨task, before, waited, same⟩ := annotated.waited named waits
    have opens := awaited id task before waited fun marked => live (annotated.cancelled marked)
    rw [← same]
    unfold Opens
    rw [ready, delayed]
    exact opens
  promoted := by
    intro q p now _ promoted _ awaited id task named waits live
    rw [promoted.rest] at named live
    have opens := awaited id task named waits live
    exact promoted.opens named (promotable_of_waits waits) opens
  swept := by
    intro p r worker taken annotated swept running awaited id after named waits live
    obtain ⟨task, before, waited, same⟩ := annotated.waited named waits
    have unmarked : id ∉ p.cancelled := fun marked => live (annotated.cancelled marked)
    rw [← same]
    refine swept.opens_unless unmarked (fun queueName entry chosen same => ?_) (awaited id task before waited unmarked)
    obtain ⟨other, leased, status⟩ := running queueName entry chosen
    rw [same, named] at leased
    obtain rfl := Option.some.inj leased
    rw [status] at waits
    cases waits

theorem awaited_init (maxDepth : Int) : Awaited (init maxDepth) := by
  intro id task named
  cases named

theorem runCalls_awaited (maxDepth : Int) (calls : List Call) : Awaited (runCalls maxDepth calls) := by
  apply kept_awaited.run maxDepth (awaited_init maxDepth)
  exact (Machine.along_true _ _).imp fun _ _ _ _ _ => trivial

end Waiting

/-! ### Dispatch -/

/-- Once it is available, a worker that accepts the task, when the dependencies are completed and no other entry is
eligible, is handed the task. -/
def Dispatchable (q : InMemoryTaskQueue) (id : String) : Prop :=
  ∀ (worker : WorkerInfo) (completed : Finset String) (leaseSeconds : ℚ) (clock : Clock) (task : TaskEnvelope),
    q.task? id = some task → task.availableAt ≤ clock 0 → worker.accepts task = true → task.spec.dependsOn ⊆ completed →
      (∀ queueName entry, q.Candidate worker completed (clock 0) queueName entry → entry.taskId = id) →
        q.handed (.reserve worker completed leaseSeconds clock) = some id

/-- The call is not about the task and does not hand it out. -/
def LeavesAlone (q : InMemoryTaskQueue) (id : String) (call : Call) : Prop :=
  call.names ≠ some id ∧ q.handed call ≠ some id

/-- The task is dispatchable now and after any calls that leave it alone. -/
def StaysDispatchable (q : InMemoryTaskQueue) (id : String) : Prop :=
  ∀ calls, Machine.Along step (fun r call => r.LeavesAlone id call) q calls → (Machine.run step q calls).Dispatchable id

variable {q : InMemoryTaskQueue} {id : String}

theorem candidate_of_opens (rep : Represented q) {task : TaskEnvelope} (named : q.task? id = some task)
    (live : id ∉ q.cancelled) (promotable : Promotable task) {now : ℚ} (opens : q.Opens id now) {worker : WorkerInfo}
    (accepts : worker.accepts task = true) {completed : Finset String} (dependencies : task.spec.dependsOn ⊆ completed) :
    ∃ queueName entry, q.Candidate worker completed now queueName entry ∧ entry.taskId = id := by
  have subscribed := (WorkerInfo.accepts_iff.mp accepts).1
  rcases opens with ready | ⟨entry, member, same, due⟩
  · obtain ⟨queueName, entry, present, rfl⟩ := readyCount_pos.mp ready
    obtain ⟨ref, found, queue, _⟩ := rep.ready queueName entry present
    rw [task?, found, Option.map_some, Option.some.injEq] at named
    rw [named] at queue
    refine ⟨queueName, entry, ⟨queue ▸ subscribed, List.mem_append_left _ present, live, ?_⟩, rfl⟩
    exact ⟨task, by rw [task?, found, ← named]; rfl, accepts, dependencies⟩
  · obtain ⟨own, arrives, name⟩ := arrives_of_due named promotable member same due
    have unmarked : own.taskId ∉ q.cancelled := by
      rw [name]
      exact live
    refine ⟨task.spec.queue, own, ⟨subscribed, List.mem_append_right _ arrives, unmarked, task, ?_⟩, name⟩
    rw [name]
    exact ⟨named, accepts, dependencies⟩

theorem Leased.handed {p r : InMemoryTaskQueue} {worker : WorkerInfo} {completed : Finset String} {leaseSeconds : ℚ}
    {clock : Clock} {deadline : ℚ} {queueName : String} {entry : ReadyEntry} {task : TaskRef} (rep : Represented q)
    (promoted : Promoted q (clock 0) p)
    (result : q.reserve worker completed leaseSeconds clock = (.ok (some task), r))
    (leased : Leased p worker deadline queueName entry task r) :
    q.handed (.reserve worker completed leaseSeconds clock) = some entry.taskId := by
  have found := leased.found
  have object : (r.objects task).taskId = (p.objects task).taskId := by
    rw [leased.rest]
    show (Function.update p.objects task _ task).taskId = _
    rw [Function.update_self]
  rw [promoted.rest] at found object
  simp only [InMemoryTaskQueue.handed, result, object, rep.named _ _ found]

theorem dispatchable_of_waiting (rep : Represented q) (heaped : Heaped q) (awaited : Awaited q) {task : TaskEnvelope}
    (named : q.task? id = some task) (waits : task.status.waits = true) (live : id ∉ q.cancelled) :
    q.Dispatchable id := by
  intro worker completed leaseSeconds clock other same due accepts dependencies only
  obtain rfl : task = other := Option.some.inj (named.symm.trans same)
  have opens : q.Opens id (clock 0) := (awaited id task named waits live).imp_right fun given => by
    obtain ⟨entry, member, own, before⟩ := given
    exact ⟨entry, member, own, before.trans due⟩
  obtain ⟨name, own, candidate, _⟩ :=
    candidate_of_opens rep named live (promotable_of_waits waits) opens accepts dependencies
  obtain ⟨p, outcome, r, promoted, result, barren, _, taken⟩ :=
    reserve_selection rep heaped worker completed leaseSeconds clock
  cases outcome with
  | none => exact (barren.mp rfl name own candidate).elim
  | some ref =>
    obtain ⟨queueName, entry, chosen, _, leased⟩ := taken ref rfl
    rw [leased.handed rep promoted result, only queueName entry chosen]

/-- What a task keeps that waits for its retry and is left alone. -/
structure Retrying (q : InMemoryTaskQueue) (id : String) : Prop where
  represented : Represented q
  heaped : Heaped q
  awaited : Awaited q
  leased : Everywhere Life.Leased q
  life : ∃ l, q.life id = some l ∧ l.task.status = .retrying ∧ l.cancelled = false

theorem Retrying.step (retrying : q.Retrying id) {call : Call} (alone : q.LeavesAlone id call) :
    (q.step call).Retrying id := by
  have rep := retrying.represented
  refine ⟨step_represented rep call, step_heaped retrying.heaped call,
    kept_awaited.step rep retrying.heaped call (fun _ _ => trivial) retrying.awaited,
    step_everywhere Life.leased_stable rep retrying.leased call, ?_⟩
  obtain ⟨l, alive, status, live⟩ := retrying.life
  obtain ⟨l', alive', same | ⟨_, effect⟩⟩ := step_life rep call alive
  · exact ⟨l', alive', by rw [same]; exact status, by rw [same]; exact live⟩
  · refine ⟨l', alive', ?_⟩
    cases effect.move with
    | settle settles => exact ⟨by rw [settles.task]; exact status, settles.cancelled.trans live⟩
    | dispatch _ handed => exact (alone.2 handed).elim
    | complete made | retry made | cancel made =>
      rw [made] at alone
      exact (alone.1 rfl).elim
    | expire _ late =>
      -- a task that waits is not leased
      have running := ((retrying.leased id l alive).running late.1).1
      rw [status] at running
      cases running

theorem Retrying.dispatchable (retrying : q.Retrying id) : q.Dispatchable id := by
  obtain ⟨l, alive, status, live⟩ := retrying.life
  refine dispatchable_of_waiting retrying.represented retrying.heaped retrying.awaited (task?_of_life alive)
    (by rw [status]; rfl) ?_
  obtain ⟨task, _, rfl⟩ := exists_of_life alive
  exact decide_eq_false_iff_not.mp live

theorem Retrying.stays (retrying : q.Retrying id) : q.StaysDispatchable id := by
  intro calls alone
  refine (Machine.run_invariant_along (I := fun r => Retrying r id) ?_ retrying alone).dispatchable
  intro r call held alone
  exact held.step alone

/-! ### The other tasks cancelled -/

theorem cancel_all (q : InMemoryTaskQueue) (ids : List String) :
    (Machine.run step q (ids.map .cancel)).tasks = q.tasks ∧
      q.cancelled ⊆ (Machine.run step q (ids.map .cancel)).cancelled ∧
      ∀ id ∈ ids, id ∈ q.tasks → id ∈ (Machine.run step q (ids.map .cancel)).cancelled := by
  induction ids generalizing q with
  | nil => exact ⟨rfl, subset_rfl, fun _ member => by cases member⟩
  | cons first rest ih =>
    obtain ⟨tasks, more, marked⟩ := ih (q.step (.cancel first))
    have one : (q.step (.cancel first)).tasks = q.tasks ∧ q.cancelled ⊆ (q.step (.cancel first)).cancelled ∧
        (first ∈ q.tasks → first ∈ (q.step (.cancel first)).cancelled) := by
      have issued : Call.Issued q (.cancel first) := trivial
      rw [step_issued issued, exec]
      unfold cancel
      cases found : q.tasks.get? first with
      | none =>
        refine ⟨rfl, subset_rfl, fun known => ?_⟩
        rw [Dict.mem_iff, found] at known
        cases known
      | some task => exact ⟨rfl, Finset.subset_insert _ _, fun _ => Finset.mem_insert_self _ _⟩
    rw [List.map_cons, Machine.run_cons]
    refine ⟨tasks.trans one.1, one.2.1.trans more, fun id member known => ?_⟩
    rcases List.mem_cons.mp member with rfl | later
    · exact more (one.2.2 known)
    · apply marked id later
      rw [one.1]
      exact known

/-- A worker made for the task. -/
def workerFor (task : TaskEnvelope) : WorkerInfo where
  workerId := ""
  host := ""
  pid := 0
  queues := [task.spec.queue]
  capacity := 1
  labels := task.spec.affinity
  status := .idle
  startedAt := 0
  lastHeartbeat := 0

theorem workerFor_accepts (task : TaskEnvelope) : (workerFor task).accepts task = true := by
  refine WorkerInfo.accepts_iff.mpr ⟨List.mem_singleton_self _, ?_, Or.inl rfl⟩
  rcases Finset.eq_empty_or_nonempty task.spec.affinity with none | ⟨label, wanted⟩
  · exact Or.inl none
  · exact Or.inr ⟨label, wanted, wanted⟩

theorem cancelled_not_dispatchable (rep : Represented q) (known : id ∈ q.tasks) (marked : id ∈ q.cancelled) :
    ¬ q.StaysDispatchable id := by
  intro stays
  let others := q.tasks.keys.filter (· ≠ id)
  obtain ⟨tasks, more, all⟩ := cancel_all q others
  have repLast : Represented (Machine.run step q (others.map .cancel)) := run_represented rep _
  have alone : Machine.Along step (fun r call => r.LeavesAlone id call) q (others.map .cancel) := by
    refine (Machine.along_of_forall (C := fun call => ∃ other, other ≠ id ∧ call = .cancel other) ?_ q).imp ?_
    · intro call member
      obtain ⟨other, listed, rfl⟩ := List.mem_map.mp member
      exact ⟨other, of_decide_eq_true (List.mem_filter.mp listed).2, rfl⟩
    · rintro r call ⟨other, different, rfl⟩
      exact ⟨fun same => different (Option.some.inj same), nofun⟩
  generalize reached : Machine.run step q (others.map .cancel) = last at *
  have none_left : ∀ other ∈ last.tasks, other ∈ last.cancelled := by
    intro other there
    rw [tasks] at there
    by_cases same : other = id
    · rw [same]
      exact more marked
    · exact all other (List.mem_filter.mpr ⟨there, decide_eq_true same⟩) there
  obtain ⟨ref, found⟩ := Dict.exists_of_mem (show id ∈ last.tasks by rw [tasks]; exact known)
  have named : last.task? id = some (last.objects ref) := by rw [task?, found]; rfl
  have dispatchable : last.Dispatchable id := reached ▸ stays (others.map .cancel) alone
  have handed := dispatchable (workerFor (last.objects ref)) (last.objects ref).spec.dependsOn 0
    (fun _ => (last.objects ref).availableAt) (last.objects ref) named (le_refl _) (workerFor_accepts _) subset_rfl ?_
  · obtain ⟨_, _, _, _, live, _⟩ := handed_reservable repLast handed
    exact live (more marked)
  · intro queueName entry candidate
    obtain ⟨task, there, _⟩ := candidate.accepted
    obtain ⟨other, present, _⟩ := Option.map_eq_some_iff.mp there
    exact (candidate.live (none_left _ (Dict.mem_of_get? present))).elim

/-- A task that waits for its retry stays dispatchable exactly when its id was never cancelled. -/
theorem staysDispatchable_iff (rep : Represented q) (heaped : Heaped q) (awaited : Awaited q)
    (leased : Everywhere Life.Leased q) {task : TaskEnvelope} (named : q.task? id = some task)
    (retrying : task.status = .retrying) : q.StaysDispatchable id ↔ id ∉ q.cancelled := by
  obtain ⟨ref, found, rfl⟩ := Option.map_eq_some_iff.mp named
  constructor
  · intro stays marked
    exact cancelled_not_dispatchable rep (Dict.mem_of_get? found) marked stays
  · intro live
    have waiting : q.Retrying id :=
      ⟨rep, heaped, awaited, leased, q.lifeOf id ref, life_eq found, retrying, decide_eq_false live⟩
    exact waiting.stays

end InMemoryTaskQueue

end TaskRunner
