import TaskRunner.Queue.Filing
import TaskRunner.Queue.Selection

/-!
When the queue lets a task go. A delay lives on the task while the heaps decide by their entries, so a task leaves
on time as long as no entry of it comes before its own `available_at`.
-/

namespace TaskRunner
open Base

/-- The readings of the wall clock a call takes under the lock. `requeue_expired_leases` takes one before, which may be
older than what other threads have read by then. -/
def Call.clock : Call → Option Clock
  | .submit _ clock | .submitMany _ clock | .reserve _ _ _ clock | .retry _ _ clock => some clock
  | .requeueExpiredLeases clock => some (clock.later 1)
  | .snapshot now => some fun _ => now
  | .complete .. | .cancel _ => none

/-- The readings of the wall clock never go back, within a clock and from one to the next. -/
def Chronological (clocks : List Clock) : Prop :=
  (∀ clock ∈ clocks, Monotone clock) ∧ clocks.Pairwise fun earlier later => ∀ k, earlier k ≤ later 0

theorem Chronological.sublist {clocks others : List Clock} (forward : Chronological clocks)
    (fewer : others.Sublist clocks) : Chronological others :=
  ⟨fun clock member => forward.1 clock (fewer.subset member), forward.2.sublist fewer⟩

/-- The entry could let its task go at `t`. -/
def HeapEntry.OpensBy (t : ℚ) : HeapEntry → Prop
  | .ready .. => True
  | .delayed entry => entry.availableAt ≤ t

theorem entryFor_opensBy (task : TaskEnvelope) (sequence : ℕ) (now : ℚ) :
    (entryFor task sequence now).OpensBy task.availableAt := by
  unfold entryFor
  split
  · exact le_refl task.availableAt
  · trivial

theorem HeapEntry.OpensBy.due {task : TaskEnvelope} {sequence : ℕ} {now t : ℚ} (later : now ≤ t)
    (opens : (entryFor task sequence now).OpensBy t) : task.availableAt ≤ t := by
  unfold entryFor at opens
  split at opens
  · exact opens
  · rename_i early
    exact (not_lt.mp early).trans later

namespace InMemoryTaskQueue

/-! ### The condition -/

/-- The task a call hands out is available when the call begins. -/
def HandsOutDue (q : InMemoryTaskQueue) (call : Call) : Prop :=
  ∀ id ∈ q.handed call, ∀ clock ∈ call.clock, ∀ task ∈ q.task? id, task.availableAt ≤ clock 0

instance (q : InMemoryTaskQueue) (call : Call) : Decidable (HandsOutDue q call) :=
  inferInstanceAs (Decidable (∀ id ∈ q.handed call, ∀ clock ∈ call.clock, ∀ task ∈ q.task? id,
    task.availableAt ≤ clock 0))

/-- An entry could let the task go at `t`. -/
def Opens (q : InMemoryTaskQueue) (id : String) (t : ℚ) : Prop :=
  0 < readyCount q.ready id ∨ ∃ entry ∈ q.delayed, entry.taskId = id ∧ entry.availableAt ≤ t

theorem opens_from_iff (q : InMemoryTaskQueue) (id : String) (due now : ℚ) :
    (due ≤ now ∨ readyCount q.ready id = 0 ∧ ∀ entry ∈ q.delayed, entry.taskId = id → due ≤ entry.availableAt) ↔
      ∀ t, now ≤ t → q.Opens id t → due ≤ t := by
  constructor
  · rintro (early | ⟨unready, entries⟩) t later opens
    · exact early.trans later
    · rcases opens with ready | ⟨entry, member, same, before⟩
      · omega
      · exact (entries entry member same).trans before
  · intro opens
    by_cases early : due ≤ now
    · exact Or.inl early
    · refine Or.inr ⟨Nat.eq_zero_of_not_pos fun ready => early (opens now (le_refl _) (Or.inl ready)), ?_⟩
      intro entry member same
      have reached := opens (max now entry.availableAt) (le_max_left _ _)
        (Or.inr ⟨entry, member, same, le_max_right _ _⟩)
      exact (le_max_iff.mp reached).resolve_left early

/-- An un-cancelled task that is retried at `start` with budget left, and pushed at `now`, is let go by no entry it
has before it is due again. -/
def RetriedInTurn (q : InMemoryTaskQueue) (id : String) (start now : ℚ) : Prop :=
  id ∉ q.cancelled → ∀ task ∈ q.task? id, task.attempts + 1 ≤ task.spec.maxRetries →
    ∀ t, now ≤ t → q.Opens id t → start + task.spec.retryBackoffSeconds * (task.attempts + 1 : Int) ≤ t

instance (q : InMemoryTaskQueue) (id : String) (start now : ℚ) : Decidable (q.RetriedInTurn id start now) :=
  haveI : ∀ due, Decidable (∀ t, now ≤ t → q.Opens id t → due ≤ t) := fun due =>
    decidable_of_iff _ (opens_from_iff q id due now)
  inferInstanceAs (Decidable (id ∉ q.cancelled → ∀ task ∈ q.task? id, task.attempts + 1 ≤ task.spec.maxRetries →
    ∀ t, now ≤ t → q.Opens id t → start + task.spec.retryBackoffSeconds * (task.attempts + 1 : Int) ≤ t))

/-- The same of each lease that has run out, with the readings its retry takes. -/
def ExpiredInTurn (q : InMemoryTaskQueue) (now : ℚ) : List (String × TaskRef) → Clock → Prop
  | [], _ => True
  | (taskId, task) :: rest, clock =>
    if q.expired now task = true then
      q.RetriedInTurn taskId (clock 0) (clock 1) ∧ q.ExpiredInTurn now rest (clock.later 2)
    else q.ExpiredInTurn now rest clock

instance decidableExpiredInTurn (q : InMemoryTaskQueue) (now : ℚ) :
    ∀ leases clock, Decidable (q.ExpiredInTurn now leases clock)
  | [], _ => isTrue trivial
  | (taskId, task) :: rest, clock =>
    haveI := decidableExpiredInTurn q now rest (clock.later 2)
    haveI := decidableExpiredInTurn q now rest clock
    inferInstanceAs (Decidable (if q.expired now task = true then
      q.RetriedInTurn taskId (clock 0) (clock 1) ∧ q.ExpiredInTurn now rest (clock.later 2)
      else q.ExpiredInTurn now rest clock))

/-- No retry, by hand, by a report or for an expired lease, makes a task wait for longer than an entry it has. -/
def RetriesInTurn (q : InMemoryTaskQueue) : Call → Prop
  | .retry taskId _ clock => q.RetriedInTurn taskId (clock 0) (clock 1)
  | .requeueExpiredLeases clock => q.ExpiredInTurn (clock 0) q.inflight.entries (clock.later 1)
  | _ => True

instance (q : InMemoryTaskQueue) (call : Call) : Decidable (RetriesInTurn q call) :=
  match call with
  | .retry taskId _ clock => inferInstanceAs (Decidable (q.RetriedInTurn taskId (clock 0) (clock 1)))
  | .requeueExpiredLeases clock =>
    inferInstanceAs (Decidable (q.ExpiredInTurn (clock 0) q.inflight.entries (clock.later 1)))
  | .submit .. | .submitMany .. | .reserve .. | .complete .. | .cancel _ | .snapshot _ =>
    inferInstanceAs (Decidable True)

/-! ### On time -/

/-- From `time` on, no entry lets the task go before it is available. -/
def OnTime (q : InMemoryTaskQueue) (time : ℚ) (id : String) : Prop :=
  ∀ task, q.task? id = some task → id ∉ q.cancelled → ∀ t, time ≤ t → q.Opens id t → task.availableAt ≤ t

/-- From `time` on, the task of `r` goes no sooner than that of `q`. -/
structure NoSooner (q : InMemoryTaskQueue) (time : ℚ) (id : String) (r : InMemoryTaskQueue) : Prop where
  task : ∀ after, r.task? id = some after → ∃ task, q.task? id = some task ∧ task.availableAt = after.availableAt
  cancelled : id ∈ q.cancelled → id ∈ r.cancelled
  opens : ∀ t, time ≤ t → r.Opens id t → q.Opens id t

variable {q r : InMemoryTaskQueue} {time : ℚ} {id : String}

theorem NoSooner.refl (q : InMemoryTaskQueue) (time : ℚ) (id : String) : NoSooner q time id q :=
  ⟨fun after found => ⟨after, found, rfl⟩, fun marked => marked, fun _ _ opens => opens⟩

theorem NoSooner.trans {s : InMemoryTaskQueue} (first : NoSooner q time id r) (last : NoSooner r time id s) :
    NoSooner q time id s := by
  refine ⟨fun after found => ?_, fun marked => last.cancelled (first.cancelled marked),
    fun t later opens => first.opens t later (last.opens t later opens)⟩
  obtain ⟨between, known, same⟩ := last.task after found
  obtain ⟨task, before, same'⟩ := first.task between known
  exact ⟨task, before, same'.trans same⟩

theorem NoSooner.onTime (kept : NoSooner q time id r) {start : ℚ} (punctual : q.OnTime start id)
    (forward : start ≤ time) : r.OnTime time id := by
  intro after found unmarked t later opens
  obtain ⟨task, known, same⟩ := kept.task after found
  rw [← same]
  exact punctual task known (fun marked => unmarked (kept.cancelled marked)) t (forward.trans later)
    (kept.opens t later opens)

theorem OnTime.later {later : ℚ} (punctual : q.OnTime time id) (forward : time ≤ later) : q.OnTime later id :=
  (NoSooner.refl q later id).onTime punctual forward

theorem NoSooner.retried (kept : NoSooner q time id r) (same : r.task? id = q.task? id) {start now : ℚ}
    (forward : time ≤ now) (inTurn : q.RetriedInTurn id start now) : r.RetriedInTurn id start now := by
  intro unmarked task named budget t later opens
  rw [same] at named
  exact inTurn (fun marked => unmarked (kept.cancelled marked)) task named budget t later
    (kept.opens t (forward.trans later) opens)

theorem unopened (rep : Represented q) (unknown : id ∉ q.tasks) (t : ℚ) : ¬ q.Opens id t := by
  intro opens
  refine unknown (known_of_waiting rep (Nat.add_pos_iff_pos_or_pos.mpr (opens.imp_right ?_)))
  intro given
  obtain ⟨entry, member, same, _⟩ := given
  exact delayedCount_pos.mpr ⟨entry, member, same⟩

theorem noSooner_assign (q : InMemoryTaskQueue) (task : TaskRef) {f : TaskEnvelope → TaskEnvelope}
    (keeps : ∀ t, (f t).availableAt = t.availableAt) (time : ℚ) (id : String) :
    NoSooner q time id (q.assign task f) := by
  refine ⟨fun after found => ?_, fun marked => marked, fun _ _ opens => opens⟩
  obtain ⟨ref, known, rfl⟩ := Option.map_eq_some_iff.mp found
  refine ⟨q.objects ref, by rw [task?, show q.tasks.get? id = some ref from known]; rfl, ?_⟩
  by_cases here : ref = task
  · subst here
    rw [assign_self, keeps]
  · rw [assign_other q here]

theorem noSooner_eraseInflight (q : InMemoryTaskQueue) (taskId : String) (time : ℚ) (id : String) :
    NoSooner q time id { q with inflight := q.inflight.erase taskId } :=
  ⟨fun after found => ⟨after, found, rfl⟩, fun marked => marked, fun _ _ opens => opens⟩

theorem opens_iff {t : ℚ} : q.Opens id t ↔ ∃ entry ∈ q.heapEntries, entry.taskId = id ∧ entry.OpensBy t := by
  constructor
  · rintro (ready | ⟨entry, member, same, due⟩)
    · obtain ⟨queueName, entry, present, same⟩ := readyCount_pos.mp ready
      exact ⟨.ready queueName entry, List.mem_append_left _ (mem_readyEntries.mpr present), same, trivial⟩
    · exact ⟨.delayed entry, List.mem_append_right _ (List.mem_map_of_mem member), same, due⟩
  · intro given
    obtain ⟨entry, member, same, due⟩ := given
    cases entry with
    | ready queueName entry =>
      rcases List.mem_append.mp member with here | there
      · exact Or.inl (readyCount_pos.mpr ⟨queueName, entry, mem_readyEntries.mp here, same⟩)
      · obtain ⟨_, _, other⟩ := List.mem_map.mp there
        cases other
    | delayed entry =>
      rcases List.mem_append.mp member with here | there
      · obtain ⟨_, _, inside⟩ := List.mem_flatMap.mp here
        obtain ⟨_, _, other⟩ := List.mem_map.mp inside
        cases other
      · obtain ⟨other, present, alike⟩ := List.mem_map.mp there
        obtain rfl := HeapEntry.delayed.inj alike
        exact Or.inr ⟨other, present, same, due⟩

theorem Opens.more {t : ℚ} (opens : q.Opens id t) (more : q.heapEntries ⊆ r.heapEntries) : r.Opens id t := by
  obtain ⟨entry, member, given⟩ := opens_iff.mp opens
  exact opens_iff.mpr ⟨entry, more member, given⟩

theorem opens_filed {task : TaskEnvelope} {sequence : ℕ} {now : ℚ} (name : task.taskId = id)
    (filed : entryFor task sequence now ∈ q.heapEntries) : q.Opens id task.availableAt :=
  opens_iff.mpr ⟨_, filed, (entryFor_taskId ..).trans name, entryFor_opensBy ..⟩

/-- An entry that came in lets its task go when the task is due. -/
theorem opens_cons {task : TaskEnvelope} {sequence : ℕ} {now t : ℚ}
    (entries : r.heapEntries.Perm (entryFor task sequence now :: q.heapEntries)) (later : now ≤ t)
    (opens : r.Opens id t) : q.Opens id t ∨ task.taskId = id ∧ task.availableAt ≤ t := by
  obtain ⟨entry, member, same, due⟩ := opens_iff.mp opens
  rcases List.mem_cons.mp (entries.mem_iff.mp member) with rfl | old
  · rw [entryFor_taskId] at same
    exact Or.inr ⟨same, due.due later⟩
  · exact Or.inl (opens_iff.mpr ⟨entry, old, same, due⟩)

/-! ### The calls -/

theorem Promoted.noSooner {now : ℚ} (promoted : Promoted q now r) (id : String) : NoSooner q now id r := by
  have same : r.task? id = q.task? id ∧ r.cancelled = q.cancelled := by
    rw [promoted.rest]
    exact ⟨rfl, rfl⟩
  refine ⟨fun after found => ⟨after, same.1.symm.trans found, rfl⟩, fun marked => by rw [same.2]; exact marked, ?_⟩
  intro t later opens
  rcases opens with ready | ⟨entry, member, named, due⟩
  · obtain ⟨queueName, entry, present, named⟩ := readyCount_pos.mp ready
    rcases List.mem_append.mp ((promoted.ready queueName).mem_iff.mp present) with old | arrived
    · exact Or.inl (readyCount_pos.mpr ⟨queueName, entry, old, named⟩)
    · -- it was due, and `t` is no earlier than `now`
      obtain ⟨before, member, moved⟩ := List.mem_filterMap.mp arrived
      unfold arrival at moved
      split at moved
      · rename_i due
        cases known : q.task? before.taskId with
        | none =>
          rw [known] at moved
          cases moved
        | some task =>
          simp only [known] at moved
          split at moved
          · obtain rfl := Option.some.inj moved
            exact Or.inr ⟨before, member, named, due.trans later⟩
          · cases moved
      · cases moved
  · exact Or.inr ⟨entry, (List.mem_filter.mp (promoted.delayed.mem_iff.mp member)).1, named, due⟩

theorem Swept.opens {worker : WorkerInfo} {taken : Option (String × ReadyEntry)} (swept : Swept q worker taken r)
    {t : ℚ} (opens : r.Opens id t) : q.Opens id t := by
  rcases opens with ready | delayed
  · obtain ⟨queueName, entry, present, named⟩ := readyCount_pos.mp ready
    exact Or.inl (readyCount_pos.mpr ⟨queueName, entry, swept.subset present, named⟩)
  · rw [swept.delayed] at delayed
    exact Or.inr delayed

theorem reserve_noSooner (rep : Represented q) (heaped : Heaped q) (worker : WorkerInfo) (completed : Finset String)
    (leaseSeconds : ℚ) (clock : Clock) (id : String) :
    NoSooner q (clock 0) id (q.reserve worker completed leaseSeconds clock).2 := by
  obtain ⟨p, outcome, r, promoted, result, _, passed, taken⟩ :=
    reserve_selection rep heaped worker completed leaseSeconds clock
  rw [result]
  apply (promoted.noSooner id).trans
  cases outcome with
  | none =>
    obtain ⟨swept, rest⟩ := passed rfl
    have same : r.task? id = p.task? id ∧ r.cancelled = p.cancelled := by
      rw [rest]
      exact ⟨rfl, rfl⟩
    exact ⟨fun after found => ⟨after, same.1.symm.trans found, rfl⟩, fun marked => by rw [same.2]; exact marked,
      fun _ _ opens => swept.opens opens⟩
  | some task =>
    obtain ⟨queueName, entry, _, _, leased⟩ := taken task rfl
    let running : TaskEnvelope → TaskEnvelope := fun t => { t with
      status := .running, assignedWorker := some worker.workerId, leaseDeadline := some (clock 1 + leaseSeconds) }
    have assigned := noSooner_assign p task (f := running) (fun _ => rfl) (clock 0) id
    have same : r.task? id = (p.assign task running).task? id ∧ r.cancelled = p.cancelled := by
      rw [leased.rest]
      exact ⟨rfl, rfl⟩
    exact ⟨fun after found => assigned.task after (same.1.symm.trans found), fun marked => by rw [same.2]; exact marked,
      fun _ _ opens => leased.swept.opens opens⟩

theorem handed_due (rep : Represented q) (call : Call)
    (punctual : ∀ id, ∀ clock ∈ call.clock, q.OnTime (clock 0) id) : HandsOutDue q call := by
  intro id handed clock read task named
  cases call with
  | reserve worker completed leaseSeconds readings =>
    obtain rfl := Option.some.inj read
    obtain ⟨r, result, _⟩ | ⟨r, taskId, ref, result, dispatched⟩ :=
      reserve_spec rep worker completed leaseSeconds readings
    · rw [handed_none result] at handed
      cases handed
    · rw [handed_some result dispatched, Option.mem_some_iff] at handed
      subst handed
      exact punctual taskId readings rfl task named dispatched.live _ (le_refl _) dispatched.due
  | _ => cases handed

theorem submit_onTime (rep : Represented q) (task : Submission) (new : task.taskId ∉ q.tasks) {clock : Clock}
    (mono : Monotone clock) (forward : time ≤ clock 0) (punctual : ∀ id, q.OnTime time id) (id : String) :
    (q.submit task.envelope clock).2.OnTime (clock 1) id := by
  have onward : time ≤ clock 1 := forward.trans (mono zero_le_one)
  by_cases full : q.maxDepth ≤ q.depth
  · rw [submit_full full]
    exact (punctual id).later onward
  · obtain ⟨r, result, admitted⟩ := submit_exact rep (not_le.mp full) task new clock
    rw [result]
    intro after found unmarked t later opens
    obtain ⟨ref, known, rfl⟩ := Option.map_eq_some_iff.mp found
    rw [admitted.tasks] at known
    rcases opens_cons admitted.entries later opens with older | ⟨own, due⟩
    · have different : id ≠ task.taskId := by
        rintro rfl
        exact unopened rep new t older
      rw [Dict.get?_set_ne _ different] at known
      rw [admitted.cancelled] at unmarked
      rw [admitted.other rep known]
      exact punctual id _ (by rw [task?, known]; rfl) unmarked t (onward.trans later) older
    · obtain rfl : task.taskId = id := own
      rw [Dict.get?_set_self] at known
      obtain rfl := Option.some.inj known
      rw [admitted.own]
      exact due

theorem submitMany_onTime (batch : List Submission) {q : InMemoryTaskQueue} (rep : Represented q)
    (new : ∀ task ∈ batch, task.taskId ∉ q.tasks) (distinct : (batch.map Submission.taskId).Nodup) {clock : Clock}
    (mono : Monotone clock) {time stop : ℚ} (forward : time ≤ clock 0) (bounded : ∀ k, clock k ≤ stop)
    (punctual : ∀ id, q.OnTime time id) (id : String) :
    (q.submitMany (batch.map Submission.envelope) clock).2.OnTime stop id := by
  induction batch generalizing q clock time with
  | nil => exact (punctual id).later (forward.trans (bounded 0))
  | cons task rest ih =>
    have first := submit_onTime rep task (new task List.mem_cons_self) mono forward punctual
    rw [List.map_cons]
    by_cases full : q.maxDepth ≤ q.depth
    · rw [submitMany, submit_full full]
      exact (punctual id).later (forward.trans (bounded 0))
    · obtain ⟨r, result, admitted⟩ := submit_exact rep (not_le.mp full) task (new task List.mem_cons_self) clock
      rw [submitMany_cons result]
      rw [result] at first
      exact ih admitted.represented (admitted.fresh new distinct) (List.nodup_cons.mp distinct).2
        (fun i j less => mono (Nat.add_le_add_left less 2)) (mono (show 1 ≤ 2 + 0 by omega)) (fun k => bounded (2 + k))
        first

theorem complete_noSooner (q : InMemoryTaskQueue) (taskId : String) (status : TaskStatus) (error : Option String)
    (time : ℚ) (id : String) : NoSooner q time id (q.complete taskId status error).2 := by
  unfold complete popInflight
  cases (q.inflight.get? taskId).or (q.tasks.get? taskId) with
  | none => exact noSooner_eraseInflight q taskId time id
  | some task =>
    dsimp only
    have assigned := noSooner_assign q task
      (f := fun t => { t with status, lastError := error, leaseDeadline := none }) (fun _ => rfl) time id
    split <;> exact ⟨assigned.task, assigned.cancelled, assigned.opens⟩

theorem cancel_noSooner (q : InMemoryTaskQueue) (taskId : String) (time : ℚ) (id : String) :
    NoSooner q time id (q.cancel taskId).2 := by
  unfold cancel
  cases q.tasks.get? taskId with
  | none => exact .refl q time id
  | some task =>
    have assigned := noSooner_assign q task (f := fun t => { t with status := .cancelled }) (fun _ => rfl) time id
    exact ⟨assigned.task, fun marked => Finset.mem_insert_of_mem marked, assigned.opens⟩

/-- A retry lets no other task go sooner, and its own goes in turn. -/
theorem retry_onTime (time : ℚ) (rep : Represented q) {taskId : String} {task : TaskRef} (found : q.tasks.get? taskId = some task)
    (reason : String) {clock : Clock} (mono : Monotone clock) :
    (∀ id ≠ taskId, NoSooner q (clock 1) id (q.retry taskId reason clock).2) ∧
      (q.OnTime time taskId → time ≤ clock 0 → q.RetriedInTurn taskId (clock 0) (clock 1) →
        (q.retry taskId reason clock).2.OnTime (clock 1) taskId) := by
  obtain ⟨r, result, retried⟩ := retry_exact rep found reason clock
  rw [result]
  have named : (r.objects task).taskId = taskId := by rw [retried.own, failed_taskId, rep.named taskId task found]
  have task?_other : ∀ id ≠ taskId, r.task? id = q.task? id := by
    intro id other
    rw [task?, task?, retried.tasks]
    cases known : q.tasks.get? id with
    | none => rfl
    | some ref => rw [Option.map_some, Option.map_some, retried.other rep found known other]
  have known : r.task? taskId = some (r.objects task) := by rw [task?, retried.tasks, found]; rfl
  have before : q.task? taskId = some (q.objects task) := by rw [task?, found]; rfl
  by_cases budget : (q.objects task).attempts + 1 ≤ (q.objects task).spec.maxRetries
  · obtain ⟨_, _, entries⟩ := retried.retrying budget
    constructor
    · intro id other
      refine ⟨fun after known' => ⟨after, (task?_other id other).symm.trans known', rfl⟩, ?_, fun t later opens => ?_⟩
      · rw [retried.cancelled]
        exact fun marked => marked
      · exact (opens_cons entries later opens).resolve_right fun own => other (own.1.symm.trans named)
    · intro punctual forward inTurn after known' unmarked t later opens
      obtain rfl := Option.some.inj (known.symm.trans known')
      rcases opens_cons entries later opens with older | own
      · rw [retried.cancelled] at unmarked
        rw [retried.own, failed_retried budget]
        exact inTurn unmarked _ before budget t later older
      · exact own.2
  · -- the budget is used up, and the task keeps the availability it had
    obtain ⟨_, _, ready, delayed⟩ := retried.buried budget
    have kept : ∀ id, NoSooner q (clock 1) id r := by
      intro id
      refine ⟨fun after known' => ?_, fun marked => by rw [retried.cancelled]; exact marked, fun t _ opens => ?_⟩
      · by_cases own : id = taskId
        · subst own
          obtain rfl := Option.some.inj (known.symm.trans known')
          exact ⟨q.objects task, before, by rw [retried.own, failed_buried budget]⟩
        · exact ⟨after, (task?_other id own).symm.trans known', rfl⟩
      · unfold Opens at opens ⊢
        rw [ready, delayed] at opens
        exact opens
    exact ⟨fun id _ => kept id, fun punctual forward _ => (kept taskId).onTime punctual (forward.trans (mono zero_le_one))⟩

theorem ExpiredInTurn.kept {now time : ℚ} (leases : List (String × TaskRef))
    (kept : ∀ id task, (id, task) ∈ leases →
      NoSooner q time id r ∧ r.task? id = q.task? id ∧ r.expired now task = q.expired now task)
    {clock : Clock} (mono : Monotone clock) (forward : time ≤ clock 0) (inTurn : q.ExpiredInTurn now leases clock) :
    r.ExpiredInTurn now leases clock := by
  induction leases generalizing clock with
  | nil => trivial
  | cons lease rest ih =>
    obtain ⟨taskId, task⟩ := lease
    obtain ⟨noSooner, same, expired⟩ := kept taskId task List.mem_cons_self
    have later : ∀ id ref, (id, ref) ∈ rest →
        NoSooner q time id r ∧ r.task? id = q.task? id ∧ r.expired now ref = q.expired now ref :=
      fun id ref member => kept id ref (List.mem_cons_of_mem _ member)
    unfold ExpiredInTurn at inTurn ⊢
    rw [expired]
    split
    · rename_i late
      rw [if_pos late] at inTurn
      exact ⟨noSooner.retried same (forward.trans (mono zero_le_one)) inTurn.1,
        ih later (fun i j less => mono (Nat.add_le_add_left less 2)) (forward.trans (mono (Nat.zero_le _))) inTurn.2⟩
    · rename_i early
      rw [if_neg early] at inTurn
      exact ih later mono forward inTurn

theorem noSooner_freed (q : InMemoryTaskQueue) (taskId : String) (task : TaskRef) (time : ℚ) (id : String) :
    NoSooner q time id (q.freed taskId task) := by
  apply (noSooner_eraseInflight q taskId time id).trans
  exact noSooner_assign { q with inflight := q.inflight.erase taskId } task
    (f := fun t => { t with assignedWorker := none }) (fun _ => rfl) time id

theorem requeueLoop_onTime (now : ℚ) (pending : List (String × TaskRef)) {q : InMemoryTaskQueue} (rep : Represented q)
    (distinct : (pending.map Prod.fst).Nodup) (listed : ∀ id task, (id, task) ∈ pending → q.tasks.get? id = some task)
    {clock : Clock} (mono : Monotone clock) {time stop : ℚ} (forward : time ≤ clock 0) (bounded : ∀ k, clock k ≤ stop)
    (inTurn : q.ExpiredInTurn now pending clock) (punctual : ∀ id, q.OnTime time id) (id : String) :
    (requeueLoop now pending q clock).2.OnTime stop id := by
  induction pending generalizing q clock time with
  | nil => exact (punctual id).later (forward.trans (bounded 0))
  | cons lease rest ih =>
    obtain ⟨taskId, task⟩ := lease
    have found : q.tasks.get? taskId = some task := listed taskId task List.mem_cons_self
    have apart : ∀ other ref, (other, ref) ∈ rest → other ≠ taskId := fun _ _ member => fst_ne_of_nodup distinct member
    rw [List.map_cons, List.nodup_cons] at distinct
    unfold ExpiredInTurn at inTurn
    by_cases due : q.expired now task = true
    · rw [if_pos due] at inTurn
      have repFreed := rep.freed taskId task
      have kept := noSooner_freed q taskId task
      have found' : (q.freed taskId task).tasks.get? taskId = some task := found
      obtain ⟨r, result, acted⟩ := retry_spec repFreed found' "lease expired" clock
      obtain ⟨others, own⟩ := retry_onTime time repFreed found' "lease expired" mono
      have inTurn' : (q.freed taskId task).RetriedInTurn taskId (clock 0) (clock 1) := by
        intro unmarked after named budget t later opens
        have named' : (q.freed taskId task).task? taskId = some { q.objects task with assignedWorker := none } := by
          rw [task?, found', Option.map_some, freed_self]
        obtain rfl := Option.some.inj (named'.symm.trans named)
        exact inTurn.1 unmarked (q.objects task) (by rw [task?, found]; rfl) budget t later opens
      rw [result] at others own
      have onward : time ≤ clock 1 := forward.trans (mono zero_le_one)
      have early : ∀ id, r.OnTime (clock 1) id := by
        intro id
        by_cases same : id = taskId
        · rw [same]
          exact own ((kept time taskId).onTime (punctual taskId) (le_refl _)) forward inTurn'
        · exact (others id same).onTime ((kept time id).onTime (punctual id) (le_refl _)) onward
      have unchanged : ∀ other ref, (other, ref) ∈ rest →
          NoSooner q (clock 1) other r ∧ r.task? other = q.task? other ∧ r.expired now ref = q.expired now ref := by
        intro other ref member
        have known := listed other ref (List.mem_cons_of_mem _ member)
        have different := apart other ref member
        have objects : r.objects ref = q.objects ref := by
          have first : r.objects ref = (q.freed taskId task).objects ref :=
            congrArg Life.task (acted.others other ref known different)
          exact first.trans (q.freed_other taskId (rep.distinct found known different))
        refine ⟨(kept (clock 1) other).trans (others other different), ?_, expired_congr objects now⟩
        rw [task?, task?, acted.tasks, show (q.freed taskId task).tasks.get? other = some ref from known, known,
          Option.map_some, Option.map_some, objects]
      rw [requeueLoop_due due result]
      exact ih acted.represented distinct.2
        (fun other ref member => by rw [acted.tasks]; exact listed other ref (List.mem_cons_of_mem _ member))
        (show Monotone (clock.later 2) from fun i j less => mono (Nat.add_le_add_left less 2))
        (mono (show 1 ≤ 2 + 0 by omega))
        (fun k => bounded (2 + k))
        (ExpiredInTurn.kept rest unchanged (fun i j less => mono (Nat.add_le_add_left less 2))
          (mono (show 1 ≤ 2 + 0 by omega)) inTurn.2) early
    · rw [if_neg due] at inTurn
      rw [requeueLoop_early due]
      exact ih rep distinct.2 (fun other ref member => listed other ref (List.mem_cons_of_mem _ member)) mono forward
        bounded inTurn punctual

/-! ### Runs -/

theorem exec_onTime (rep : Represented q) (heaped : Heaped q) {call : Call} (issued : call.Issued q) {stop : ℚ}
    (forward : time ≤ stop) (readings : ∀ clock ∈ call.clock, Monotone clock ∧ time ≤ clock 0 ∧ ∀ k, clock k ≤ stop)
    (inTurn : RetriesInTurn q call) (punctual : ∀ id, q.OnTime time id) (id : String) :
    (q.exec call).OnTime stop id := by
  cases call with
  | submit task clock =>
    obtain ⟨mono, before, bounded⟩ := readings clock rfl
    exact (submit_onTime rep task issued mono before punctual id).later (bounded 1)
  | submitMany tasks clock =>
    obtain ⟨mono, before, bounded⟩ := readings clock rfl
    exact submitMany_onTime tasks rep issued.1 issued.2 mono before bounded punctual id
  | reserve worker completed leaseSeconds clock =>
    obtain ⟨_, before, bounded⟩ := readings clock rfl
    have kept := reserve_noSooner rep heaped worker completed leaseSeconds clock id
    exact (kept.onTime (punctual id) before).later (bounded 0)
  | complete taskId status error => exact (complete_noSooner q taskId status error stop id).onTime (punctual id) forward
  | cancel taskId => exact (cancel_noSooner q taskId stop id).onTime (punctual id) forward
  | retry taskId reason clock =>
    obtain ⟨mono, before, bounded⟩ := readings clock rfl
    cases found : q.tasks.get? taskId with
    | none =>
      rw [exec, retry_unknown rep found]
      exact (punctual id).later forward
    | some task =>
      obtain ⟨others, own⟩ := retry_onTime time rep found reason mono
      refine OnTime.later ?_ (bounded 1)
      by_cases same : id = taskId
      · subst same
        exact own (punctual id) before inTurn
      · exact (others id same).onTime (punctual id) (before.trans (mono zero_le_one))
  | requeueExpiredLeases clock =>
    obtain ⟨mono, before, bounded⟩ := readings (clock.later 1) rfl
    have leases : ∀ id task, (id, task) ∈ q.inflight.entries → q.tasks.get? id = some task := by
      intro id task member
      exact rep.inflight id task ((q.inflight.mem_entries_iff id task).mp member)
    exact requeueLoop_onTime (clock 0) q.inflight.entries rep q.inflight.nodup leases mono before bounded inTurn punctual
      id
  | snapshot now =>
    obtain ⟨_, before, bounded⟩ := readings _ rfl
    exact (((promote_promoted rep heaped now).noSooner id).onTime (punctual id) before).later (bounded 0)

theorem step_onTime (rep : Represented q) (heaped : Heaped q) {call : Call} {stop : ℚ} (forward : time ≤ stop)
    (readings : ∀ clock ∈ call.clock, Monotone clock ∧ time ≤ clock 0 ∧ ∀ k, clock k ≤ stop)
    (inTurn : RetriesInTurn q call) (punctual : ∀ id, q.OnTime time id) (id : String) :
    (q.step call).OnTime stop id := by
  by_cases issued : call.Issued q
  · rw [step_issued issued]
    exact exec_onTime rep heaped issued forward readings inTurn punctual id
  · rw [step_refused issued]
    exact (punctual id).later forward

theorem onTime_init (maxDepth : Int) (time : ℚ) (id : String) : (init maxDepth).OnTime time id := by
  intro task named
  cases named

/-- With a clock that does not go back and retries in turn, every task handed out is available. The invariant is that
the queue is on time for the next reading. -/
theorem run_due {q : InMemoryTaskQueue} (rep : Represented q) (heaped : Heaped q) {calls : List Call}
    (forward : Chronological (calls.filterMap Call.clock))
    (punctual : ∀ clock ∈ (calls.filterMap Call.clock).head?, ∀ id, q.OnTime (clock 0) id)
    (inTurn : Machine.Along step RetriesInTurn q calls) : Machine.Along step HandsOutDue q calls := by
  induction calls generalizing q with
  | nil => trivial
  | cons call rest ih =>
    have repNext := step_represented rep call
    have heapedNext := step_heaped heaped call
    cases read : call.clock with
    | none =>
      rw [List.filterMap_cons_none read] at forward punctual
      refine ⟨handed_due rep call fun id clock known => ?_, ih repNext heapedNext forward ?_ inTurn.2⟩
      · rw [read] at known
        cases known
      · intro clock next
        refine step_onTime rep heaped (le_refl _) (fun other known => ?_) inTurn.1 (punctual clock next)
        rw [read] at known
        cases known
    | some clock =>
      rw [List.filterMap_cons_some read] at forward punctual
      obtain ⟨mono, ordered⟩ := forward
      rw [List.pairwise_cons] at ordered
      have here := punctual clock rfl
      refine ⟨handed_due rep call fun id other known => ?_, ih repNext heapedNext ?_ ?_ inTurn.2⟩
      · obtain rfl := Option.some.inj (read.symm.trans known)
        exact here id
      · exact ⟨fun later member => mono later (List.mem_cons_of_mem _ member), ordered.2⟩
      · intro later next
        have bounded := ordered.1 later (List.mem_of_mem_head? next)
        refine step_onTime rep heaped (bounded 0) (fun other known => ?_) inTurn.1 here
        obtain rfl := Option.some.inj (read.symm.trans known)
        exact ⟨mono clock List.mem_cons_self, le_refl _, bounded⟩

end InMemoryTaskQueue

end TaskRunner
