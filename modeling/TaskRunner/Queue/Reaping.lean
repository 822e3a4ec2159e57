import TaskRunner.Queue.Effect
import TaskRunner.Queue.Filing

/-!
What lease expiry does, exactly: which leases it ends, what the end of a lease does to its task, and that it does
nothing else.
-/

namespace TaskRunner
open Base

namespace InMemoryTaskQueue

/-- The end of its lease: the retry of the task reads `start` from the clock and pushes it at `now`. -/
structure Reaped (q : InMemoryTaskQueue) (id : String) (task : TaskRef) (start now : ℚ) (r : InMemoryTaskQueue) :
    Prop where
  object : r.objects task = failed (q.objects task) "lease expired" start
  attempts : (r.objects task).attempts = (q.objects task).attempts + 1
  released : (r.objects task).assignedWorker = none ∧ (r.objects task).leaseDeadline = none
  retrying : (r.objects task).attempts ≤ (r.objects task).spec.maxRetries →
    (r.objects task).status = .retrying ∧
      (r.objects task).availableAt = start + (r.objects task).spec.retryBackoffSeconds * (r.objects task).attempts ∧
      r.deadLetter.get? id = q.deadLetter.get? id ∧
      ∃ sequence, (r.entriesOf id).Perm (entryFor (r.objects task) sequence now :: q.entriesOf id)
  buried : (r.objects task).spec.maxRetries < (r.objects task).attempts →
    (r.objects task).status = .deadLettered ∧ r.deadLetter.get? id = some task ∧
      (r.entriesOf id).Perm (q.entriesOf id)

/-- Nothing of the task `id` has changed but the object it names. -/
structure Unreaped (q : InMemoryTaskQueue) (id : String) (r : InMemoryTaskQueue) : Prop where
  deadLetter : r.deadLetter.get? id = q.deadLetter.get? id
  entries : (r.entriesOf id).Perm (q.entriesOf id)

/-- The frame of a sequence of retries: what they leave of the leases, and the containers they do not touch. -/
structure Emptied (q : InMemoryTaskQueue) (due : List (String × TaskRef)) (r : InMemoryTaskQueue) : Prop where
  represented : Represented r
  tasks : r.tasks = q.tasks
  cancelled : r.cancelled = q.cancelled
  maxDepth : r.maxDepth = q.maxDepth
  inflight : r.inflight.entries = q.inflight.entries.filter fun lease => lease.1 ∉ due.map Prod.fst
  objects : ∀ ref ∉ due.map Prod.snd, r.objects ref = q.objects ref
  others : ∀ id ∉ due.map Prod.fst, Unreaped q id r

variable {q r s : InMemoryTaskQueue} {id : String} {task : TaskRef} {start now : ℚ}

theorem Reaped.after (reaped : Reaped q id task start now r) (object : s.objects task = r.objects task)
    (kept : Unreaped r id s) : Reaped q id task start now s := by
  refine ⟨object.trans reaped.object, ?_, ?_, ?_, ?_⟩ <;> rw [object]
  · exact reaped.attempts
  · exact reaped.released
  · intro budget
    obtain ⟨status, due, dead, sequence, entries⟩ := reaped.retrying budget
    exact ⟨status, due, kept.deadLetter.trans dead, sequence, kept.entries.trans entries⟩
  · intro spent
    obtain ⟨status, dead, entries⟩ := reaped.buried spent
    exact ⟨status, kept.deadLetter.trans dead, kept.entries.trans entries⟩

theorem Reaped.before (reaped : Reaped r id task start now s) (object : r.objects task = q.objects task)
    (kept : Unreaped q id r) : Reaped q id task start now s := by
  refine ⟨?_, ?_, reaped.released, ?_, ?_⟩
  · rw [← object]
    exact reaped.object
  · rw [← object]
    exact reaped.attempts
  · intro budget
    obtain ⟨status, due, dead, sequence, entries⟩ := reaped.retrying budget
    exact ⟨status, due, dead.trans kept.deadLetter, sequence, entries.trans (kept.entries.cons _)⟩
  · intro spent
    obtain ⟨status, dead, entries⟩ := reaped.buried spent
    exact ⟨status, dead, entries.trans kept.entries⟩

theorem Unreaped.trans (first : Unreaped q id r) (last : Unreaped r id s) : Unreaped q id s :=
  ⟨last.deadLetter.trans first.deadLetter, last.entries.trans first.entries⟩

theorem failed_freed (task : TaskEnvelope) (reason : String) (start : ℚ) :
    failed { task with assignedWorker := none } reason start = failed task reason start := rfl

/-- One pass of the loop: the lease is taken out and its task retried. -/
theorem reap_one (rep : Represented q) (leased : q.inflight.get? id = some task) (clock : Clock) :
    ∃ r, (q.freed id task).retry id "lease expired" clock = (.ok task, r) ∧ Emptied q [(id, task)] r ∧
      Reaped q id task (clock 0) (clock 1) r := by
  have found := rep.inflight id task leased
  have name := rep.named id task found
  have object := q.freed_self id task
  obtain ⟨r, result, retried⟩ :=
    retry_exact (rep.freed id task) (show (q.freed id task).tasks.get? id = some task from found) "lease expired" clock
  refine ⟨r, result, ?_⟩
  have updated : r.objects task = failed (q.objects task) "lease expired" (clock 0) := by
    rw [retried.own, object]
    exact failed_freed ..
  have taskId : (r.objects task).taskId = id := by rw [updated, failed_taskId, name]
  have retrying := retried.retrying
  have buried := retried.buried
  rw [object] at retrying buried
  constructor
  · refine ⟨retried.represented, retried.tasks, retried.cancelled, retried.maxDepth, ?_, fun ref other => ?_,
      fun other different => ?_⟩
    · rw [retried.inflight]
      show (q.inflight.entries.filter _).filter _ = _
      rw [List.filter_filter]
      apply List.filter_congr
      intro lease _
      simp
    · have apart : ref ≠ task := fun same => other (by rw [same]; exact List.mem_singleton_self _)
      rw [retried.objects, Function.update_of_ne apart]
      exact q.freed_other id apart
    · have apart : id ≠ other := fun same => different (by rw [same]; exact List.mem_singleton_self _)
      by_cases budget : (q.objects task).attempts + 1 ≤ (q.objects task).spec.maxRetries
      · obtain ⟨dead, _, entries⟩ := retrying budget
        refine ⟨by rw [dead]; rfl, ?_⟩
        have own := entriesOf_cons entries other
        rw [entryFor_taskId, taskId, if_neg apart] at own
        exact own
      · obtain ⟨dead, _, ready, delayed⟩ := buried budget
        refine ⟨by rw [dead]; exact Dict.get?_set_ne _ (Ne.symm apart) _, ?_⟩
        unfold entriesOf heapEntries
        rw [ready, delayed]
        exact List.Perm.refl _
  · have spec : (r.objects task).attempts = (q.objects task).attempts + 1 ∧
        (r.objects task).spec = (q.objects task).spec := by
      rw [updated]
      exact ⟨failed_attempts .., failed_spec ..⟩
    refine ⟨updated, spec.1, ?_, ?_, ?_⟩
    · rw [updated]
      exact failed_released ..
    · rw [spec.1, spec.2]
      intro budget
      obtain ⟨dead, _, entries⟩ := retrying budget
      have own := entriesOf_cons entries id
      rw [entryFor_taskId, if_pos taskId] at own
      refine ⟨?_, ?_, by rw [dead]; rfl, _, own⟩
      · rw [updated, failed_retried budget]
      · rw [updated, failed_retried budget]
    · rw [spec.1, spec.2]
      intro exceeded
      obtain ⟨dead, _, ready, delayed⟩ := buried (not_le.mpr exceeded)
      refine ⟨by rw [updated, failed_buried (not_le.mpr exceeded)], by rw [dead]; exact Dict.get?_set_self .., ?_⟩
      unfold entriesOf heapEntries
      rw [ready, delayed]
      exact List.Perm.refl _

/-- The loop over the listed leases. The lease at position `i` among those that are due is retried with the readings
`2 * i` and `2 * i + 1`. -/
theorem requeueLoop_exact (now : ℚ) (pending : List (String × TaskRef)) (rep : Represented q)
    (distinct : (pending.map Prod.fst).Nodup)
    (listed : ∀ id task, (id, task) ∈ pending → q.inflight.get? id = some task) (clock : Clock) :
    ∃ r, requeueLoop now pending q clock = (.ok ((pending.filter fun lease => q.expired now lease.2).map Prod.snd), r) ∧
      Emptied q (pending.filter fun lease => q.expired now lease.2) r ∧
      ∀ i id task, (pending.filter fun lease => q.expired now lease.2)[i]? = some (id, task) →
        Reaped q id task (clock (2 * i)) (clock (2 * i + 1)) r := by
  induction pending generalizing q clock with
  | nil =>
    refine ⟨q, rfl, ⟨rep, rfl, rfl, rfl, ?_, fun _ _ => rfl, fun _ _ => ⟨rfl, List.Perm.refl _⟩⟩, ?_⟩
    · exact (List.filter_eq_self.mpr fun _ _ => decide_eq_true List.not_mem_nil).symm
    · intro i id task found
      cases found
  | cons lease rest ih =>
    obtain ⟨id, task⟩ := lease
    have leased : q.inflight.get? id = some task := listed id task List.mem_cons_self
    have later : ∀ other ref, (other, ref) ∈ rest → other ≠ id ∧ ref ≠ task := by
      intro other ref member
      have different : other ≠ id := fst_ne_of_nodup distinct member
      have known := rep.inflight other ref (listed other ref (List.mem_cons_of_mem _ member))
      exact ⟨different, rep.distinct (rep.inflight id task leased) known different⟩
    rw [List.map_cons, List.nodup_cons] at distinct
    by_cases due : q.expired now task = true
    · obtain ⟨r, result, emptied, reaped⟩ := reap_one rep leased clock
      have same : ∀ lease ∈ rest, r.expired now lease.2 = q.expired now lease.2 := by
        intro lease member
        have apart := (later lease.1 lease.2 member).2
        exact expired_congr (emptied.objects lease.2 fun one => apart (List.mem_singleton.mp one)) now
      have listedRest : ∀ other ref, (other, ref) ∈ rest → r.inflight.get? other = some ref := by
        intro other ref member
        rw [← Dict.mem_entries_iff, emptied.inflight, List.mem_filter]
        refine ⟨(q.inflight.mem_entries_iff _ _).mpr (listed other ref (List.mem_cons_of_mem _ member)), ?_⟩
        exact decide_eq_true fun one => (later other ref member).1 (List.mem_singleton.mp one)
      obtain ⟨s, result', emptied', reaped'⟩ := ih emptied.represented distinct.2 listedRest (clock.later 2)
      rw [List.filter_congr same] at result' emptied' reaped'
      rw [requeueLoop_due due result, result']
      have unlisted : id ∉ (rest.filter fun lease => q.expired now lease.2).map Prod.fst := by
        intro member
        obtain ⟨lease, inside, rfl⟩ := List.mem_map.mp member
        exact (later lease.1 lease.2 (List.mem_of_mem_filter inside)).1 rfl
      have untouched : task ∉ (rest.filter fun lease => q.expired now lease.2).map Prod.snd := by
        intro member
        obtain ⟨lease, inside, rfl⟩ := List.mem_map.mp member
        exact (later lease.1 lease.2 (List.mem_of_mem_filter inside)).2 rfl
      rw [List.filter_cons_of_pos (by simpa using due)]
      refine ⟨s, rfl, ⟨emptied'.represented, emptied'.tasks.trans emptied.tasks,
        emptied'.cancelled.trans emptied.cancelled, emptied'.maxDepth.trans emptied.maxDepth, ?_, ?_, ?_⟩, ?_⟩
      · rw [emptied'.inflight, emptied.inflight, List.filter_filter]
        apply List.filter_congr
        intro lease _
        rw [Bool.eq_iff_iff]
        simp only [Bool.and_eq_true, decide_eq_true_eq, List.map_cons, List.map_nil, List.mem_cons, List.not_mem_nil,
          or_false, not_or]
        exact and_comm
      · intro ref other
        rw [List.map_cons, List.mem_cons, not_or] at other
        rw [emptied'.objects ref other.2]
        exact emptied.objects ref fun one => other.1 (List.mem_singleton.mp one)
      · intro other absent
        rw [List.map_cons, List.mem_cons, not_or] at absent
        exact (emptied.others other fun one => absent.1 (List.mem_singleton.mp one)).trans
          (emptied'.others other absent.2)
      · intro i other ref position
        cases i with
        | zero =>
          rw [List.getElem?_cons_zero, Option.some.injEq, Prod.mk.injEq] at position
          obtain ⟨rfl, rfl⟩ := position
          exact reaped.after (emptied'.objects task untouched) (emptied'.others id unlisted)
        | succ i =>
          rw [List.getElem?_cons_succ] at position
          have member := List.mem_of_mem_filter (List.mem_of_getElem? position)
          obtain ⟨different, apart⟩ := later other ref member
          have ended := reaped' i other ref position
          simp only [Clock.later, show 2 + 2 * i = 2 * (i + 1) by omega,
            show 2 + (2 * i + 1) = 2 * (i + 1) + 1 by omega] at ended
          exact ended.before (emptied.objects ref fun one => apart (List.mem_singleton.mp one))
            (emptied.others other fun one => different (List.mem_singleton.mp one))
    · obtain ⟨r, result, emptied, reaped⟩ := ih rep distinct.2
        (fun other ref member => listed other ref (List.mem_cons_of_mem _ member)) clock
      rw [requeueLoop_early due, List.filter_cons_of_neg (by simpa using due)]
      exact ⟨r, result, emptied, reaped⟩

/-- In every reachable state lease expiry returns the tasks of the leases that have run out, each once, and retries
each of them once. The other leases, tasks and entries stay. -/
theorem reaps_exactly (maxDepth : Int) (calls : List Call) (clock : Clock) :
    let q := runCalls maxDepth calls
    let due := q.inflight.entries.filter fun lease => q.expired (clock 0) lease.2
    ∃ r, q.requeueExpiredLeases clock = (.ok (due.map Prod.snd), r) ∧ (due.map Prod.snd).Nodup ∧
      r.inflight.entries = (q.inflight.entries.filter fun lease => ¬ q.expired (clock 0) lease.2) ∧
      (∀ i id task, due[i]? = some (id, task) → Reaped q id task (clock (2 * i + 1)) (clock (2 * i + 2)) r) ∧
      (∀ task ∉ due.map Prod.snd, r.objects task = q.objects task) ∧
      (∀ id ∉ due.map Prod.fst, Unreaped q id r) ∧ r.tasks = q.tasks ∧ r.cancelled = q.cancelled := by
  intro q due
  have rep : Represented q := runCalls_represented maxDepth calls
  have leases : ∀ id task, (id, task) ∈ q.inflight.entries → q.inflight.get? id = some task := fun id task member =>
    (q.inflight.mem_entries_iff id task).mp member
  obtain ⟨r, result, emptied, reaped⟩ :=
    requeueLoop_exact (clock 0) q.inflight.entries rep q.inflight.nodup leases (clock.later 1)
  have listed : ∀ lease ∈ q.inflight.entries, lease.1 ∈ due.map Prod.fst ↔ q.expired (clock 0) lease.2 = true := by
    intro lease member
    constructor
    · intro inside
      obtain ⟨other, chosen, same⟩ := List.mem_map.mp inside
      obtain ⟨present, out⟩ := List.mem_filter.mp chosen
      have here := leases lease.1 lease.2 member
      rw [← same, leases other.1 other.2 present, Option.some.injEq] at here
      rw [← here]
      exact out
    · intro out
      exact List.mem_map_of_mem (List.mem_filter.mpr ⟨member, out⟩)
  refine ⟨r, result, ?_, ?_, ?_, emptied.objects, emptied.others, emptied.tasks, emptied.cancelled⟩
  · refine List.Nodup.map_on ?_ ((List.Nodup.of_map _ q.inflight.nodup).filter _)
    intro lease chosen other chosen' same
    have known := rep.inflight _ _ (leases lease.1 lease.2 (List.mem_of_mem_filter chosen))
    have known' := rep.inflight _ _ (leases other.1 other.2 (List.mem_of_mem_filter chosen'))
    have names : lease.1 = other.1 := by
      rw [← rep.named _ _ known, ← rep.named _ _ known', same]
    exact Prod.ext names same
  · rw [emptied.inflight]
    apply List.filter_congr
    intro lease member
    exact decide_eq_decide.mpr (not_congr (listed lease member))
  · intro i id task position
    have ended := reaped i id task position
    simp only [Clock.later, show 1 + 2 * i = 2 * i + 1 by omega, show 1 + (2 * i + 1) = 2 * i + 2 by omega] at ended
    exact ended

end InMemoryTaskQueue

end TaskRunner
