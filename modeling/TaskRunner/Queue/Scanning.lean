import TaskRunner.Queue.Settling

/-!
The scan of the ready heaps inside `reserve`: it raises nothing, drops the entries of cancelled ids
and finds the eligible entries of the heaps the worker subscribes to.
-/

namespace TaskRunner
open Base

namespace InMemoryTaskQueue

/-- The worker accepts the entry's task, whose dependencies are completed. -/
def eligible (q : InMemoryTaskQueue) (worker : WorkerInfo) (completed : Finset String) (entry : ReadyEntry) :
    Prop :=
  ∃ task, q.tasks.get? entry.taskId = some task ∧ worker.accepts (q.objects task) = true ∧
    (q.objects task).spec.dependsOn ⊆ completed

def uncancelled (q : InMemoryTaskQueue) (entries : List ReadyEntry) : List ReadyEntry :=
  entries.filter (fun e => e.taskId ∉ q.cancelled)

theorem mem_uncancelled {q : InMemoryTaskQueue} {entries : List ReadyEntry} {entry : ReadyEntry} :
    entry ∈ q.uncancelled entries ↔ entry ∈ entries ∧ entry.taskId ∉ q.cancelled := by
  simp [uncancelled, List.mem_filter]

theorem uncancelled_perm (q : InMemoryTaskQueue) {entries others : List ReadyEntry} (perm : entries.Perm others) :
    (q.uncancelled entries).Perm (q.uncancelled others) := perm.filter _

theorem countReady_uncancelled (q : InMemoryTaskQueue) (entries : List ReadyEntry) {id : String}
    (live : id ∉ q.cancelled) : countReady id (q.uncancelled entries) = countReady id entries := by
  rw [countReady, countReady, uncancelled, List.countP_filter]
  apply List.countP_congr
  intro entry _
  simp only [Bool.and_eq_true, decide_eq_true_eq]
  constructor
  · exact And.left
  · intro same
    exact ⟨same, by rw [same]; exact live⟩

theorem countReady_uncancelled_le (q : InMemoryTaskQueue) (entries : List ReadyEntry) (id : String) :
    countReady id (q.uncancelled entries) ≤ countReady id entries :=
  List.Sublist.countP_le List.filter_sublist

/-! ### One heap -/

structure Drained (q : InMemoryTaskQueue) (worker : WorkerInfo) (completed : Finset String)
    (queueName : String) (d e : Drain) : Prop where
  queue : e.queue = []
  retained : e.retained.Perm (d.retained ++ q.uncancelled d.queue)
  candidates : ∀ item, item ∈ e.candidates ↔ item ∈ d.candidates ∨
    item.2 = queueName ∧ item.1 ∈ q.uncancelled d.queue ∧ q.eligible worker completed item.1

theorem drainLoop_spec (q : InMemoryTaskQueue) (worker : WorkerInfo) (completed : Finset String)
    (queueName : String) (fuel : ℕ) {d : Drain} (known : ∀ entry ∈ d.queue, entry.taskId ∈ q.tasks)
    (enough : d.queue.length ≤ fuel) :
    ∃ e, drainLoop q worker completed queueName fuel d = (.ok (), e) ∧
      Drained q worker completed queueName d e := by
  induction fuel generalizing d with
  | zero =>
    have empty : d.queue = [] := List.length_eq_zero_iff.mp (Nat.le_zero.mp enough)
    exact ⟨d, rfl, empty, by simp [empty, uncancelled], by simp [empty, uncancelled]⟩
  | succ fuel ih =>
    unfold drainLoop
    split
    · rename_i none
      have empty : d.queue = [] := (Heapq.heappop_eq_none _).mp none
      exact ⟨d, rfl, empty, by simp [empty, uncancelled], by simp [empty, uncancelled]⟩
    · rename_i candidate rest popped
      have perm := Heapq.heappop_perm popped
      have shorter := Heapq.heappop_length popped
      have knownRest : ∀ entry ∈ rest, entry.taskId ∈ q.tasks := fun entry member =>
        known entry (perm.mem_iff.mpr (List.mem_cons_of_mem _ member))
      have kept := q.uncancelled_perm perm
      split
      · -- the entry of a cancelled id is left out
        rename_i dropped
        obtain ⟨e, result, drained⟩ := ih (d := { d with queue := rest }) knownRest (by simp only; omega)
        have same : q.uncancelled (candidate :: rest) = q.uncancelled rest := by simp [uncancelled, dropped]
        rw [same] at kept
        refine ⟨e, result, drained.queue, drained.retained.trans (kept.symm.append_left _), ?_⟩
        intro item
        rw [drained.candidates item, kept.mem_iff]
      · rename_i live
        have same : q.uncancelled (candidate :: rest) = candidate :: q.uncancelled rest := by
          simp [uncancelled, live]
        rw [same] at kept
        have moved : (d.retained ++ [candidate] ++ q.uncancelled rest).Perm
            (d.retained ++ q.uncancelled d.queue) := by
          rw [List.append_assoc]
          exact kept.symm.append_left _
        obtain ⟨task, found⟩ := Dict.exists_of_mem (known candidate (perm.mem_iff.mpr List.mem_cons_self))
        simp only [found]
        split
        · rename_i accepted
          rw [Bool.and_eq_true, decide_eq_true_eq] at accepted
          obtain ⟨e, result, drained⟩ := ih
            (d := ⟨rest, d.retained ++ [candidate], d.candidates ++ [(candidate, queueName)]⟩) knownRest
            (by simp only; omega)
          refine ⟨e, result, drained.queue, drained.retained.trans moved, ?_⟩
          intro item
          have chosen : q.eligible worker completed candidate := ⟨task, found, accepted⟩
          rw [drained.candidates item, kept.mem_iff, List.mem_append, List.mem_singleton, List.mem_cons,
            Prod.ext_iff]
          constructor
          · rintro ((old | ⟨first, second⟩) | later)
            · exact Or.inl old
            · exact Or.inr ⟨second, Or.inl first, by rw [first]; exact chosen⟩
            · exact Or.inr ⟨later.1, Or.inr later.2.1, later.2.2⟩
          · rintro (old | ⟨second, first | member, eligible⟩)
            · exact Or.inl (Or.inl old)
            · exact Or.inl (Or.inr ⟨first, second⟩)
            · exact Or.inr ⟨second, member, eligible⟩
        · rename_i refused
          obtain ⟨e, result, drained⟩ := ih (d := ⟨rest, d.retained ++ [candidate], d.candidates⟩) knownRest
            (by simp only; omega)
          refine ⟨e, result, drained.queue, drained.retained.trans moved, ?_⟩
          intro item
          have unfit : ¬ q.eligible worker completed candidate := by
            intro given
            obtain ⟨other, found', accepts, ready⟩ := given
            obtain rfl : task = other := Option.some.inj (found.symm.trans found')
            exact refused (by rw [Bool.and_eq_true, decide_eq_true_eq]; exact ⟨accepts, ready⟩)
          rw [drained.candidates item, kept.mem_iff, List.mem_cons]
          constructor
          · rintro (old | ⟨second, member, eligible⟩)
            · exact Or.inl old
            · exact Or.inr ⟨second, Or.inr member, eligible⟩
          · rintro (old | ⟨second, first | member, eligible⟩)
            · exact Or.inl old
            · exact (unfit (by rw [← first]; exact eligible)).elim
            · exact Or.inr ⟨second, member, eligible⟩

theorem pushAll_perm (entries heap : List ReadyEntry) :
    (entries.foldl Heapq.heappush heap).Perm (entries ++ heap) := by
  induction entries generalizing heap with
  | nil => exact List.Perm.refl _
  | cons entry rest ih =>
    calc (entry :: rest).foldl Heapq.heappush heap
        = rest.foldl Heapq.heappush (Heapq.heappush heap entry) := rfl
      _ |>.Perm (rest ++ Heapq.heappush heap entry) := ih _
      _ |>.Perm (rest ++ entry :: heap) := (Heapq.heappush_perm heap entry).append_left rest
      _ |>.Perm (entry :: rest ++ heap) := List.perm_middle

/-! ### All heaps of a worker -/

structure Scanned (q : InMemoryTaskQueue) (names : List String) (ready : Dict String (List ReadyEntry)) :
    Prop where
  inside : ∀ name ∈ names, (ready.getD name []).Perm (q.uncancelled (q.ready.getD name []))
  outside : ∀ name ∉ names, ready.getD name [] = q.ready.getD name []
  settled : Settled q { q with ready }

theorem getD_set (ready : Dict String (List ReadyEntry)) (queueName name : String) (entries : List ReadyEntry) :
    (ready.set queueName entries).getD name [] = if name = queueName then entries else ready.getD name [] := by
  simp only [Dict.getD, Dict.get?_set]
  split <;> rfl

theorem settled_uncancel {q : InMemoryTaskQueue} {queueName : String} {entries : List ReadyEntry}
    (perm : entries.Perm (q.uncancelled (q.ready.getD queueName []))) :
    Settled q { q with ready := q.ready.set queueName entries } := by
  refine ⟨rfl, rfl, rfl, rfl, rfl, rfl, fun id task found => ?_⟩
  have sum := readyCount_set q.ready id queueName entries
  rw [countReady_perm id perm] at sum
  by_cases marked : id ∈ q.cancelled
  · have less := countReady_uncancelled_le q (q.ready.getD queueName []) id
    refine Life.Settles.clear (l := q.lifeOf id task) ?_ (decide_eq_true marked)
    show readyCount (q.ready.set queueName entries) id ≤ readyCount q.ready id
    omega
  · rw [countReady_uncancelled q _ marked] at sum
    have same : readyCount (q.ready.set queueName entries) id = readyCount q.ready id := by omega
    simp only [lifeOf, same]
    exact Life.Settles.refl _

theorem scanQueues_spec (worker : WorkerInfo) (completed : Finset String) (names : List String)
    {q : InMemoryTaskQueue} (rep : Represented q) (candidates : List (ReadyEntry × String)) :
    ∃ found ready, scanQueues worker completed names q candidates = (.ok found, { q with ready }) ∧
      Represented { q with ready } ∧ Scanned q names ready ∧
      ∀ item, item ∈ found ↔ item ∈ candidates ∨ item.2 ∈ names ∧
        item.1 ∈ q.uncancelled (q.ready.getD item.2 []) ∧ q.eligible worker completed item.1 := by
  induction names generalizing q candidates with
  | nil =>
    exact ⟨candidates, q.ready, rfl, rep, ⟨by simp, fun _ _ => rfl, .refl q⟩, by simp⟩
  | cons queueName names ih =>
    unfold scanQueues
    -- a heap that is empty is skipped, which rewriting it to itself also does
    by_cases empty : q.ready.getD queueName [] = []
    · simp only [empty, if_true]
      obtain ⟨found, ready, result, repReady, scanned, members⟩ := ih rep candidates
      refine ⟨found, ready, result, repReady, ⟨?_, ?_, scanned.settled⟩, ?_⟩
      · intro name member
        by_cases listed : name ∈ names
        · exact scanned.inside name listed
        · obtain rfl : name = queueName := (List.mem_cons.mp member).resolve_right listed
          rw [scanned.outside name listed, empty]
          exact List.Perm.refl _
      · intro name absent
        exact scanned.outside name fun listed => absent (List.mem_cons_of_mem _ listed)
      · intro item
        rw [members item, List.mem_cons]
        constructor
        · rintro (old | ⟨listed, rest⟩)
          · exact Or.inl old
          · exact Or.inr ⟨Or.inr listed, rest⟩
        · rintro (old | ⟨same | listed, rest⟩)
          · exact Or.inl old
          · rw [same, empty] at rest
            exact absurd rest.1 (by simp [uncancelled])
          · exact Or.inr ⟨listed, rest⟩
    · simp only [empty, if_false]
      have filed := rep.ready queueName
      obtain ⟨d, result, drained⟩ := drainLoop_spec q worker completed queueName
        (q.ready.getD queueName []).length (d := ⟨q.ready.getD queueName [], [], candidates⟩)
        (fun entry member => by
          obtain ⟨task, found, _⟩ := filed entry member
          exact Dict.mem_of_get? found) (le_refl _)
      rw [result]
      simp only []
      have perm : (d.retained.foldl Heapq.heappush d.queue).Perm (q.uncancelled (q.ready.getD queueName [])) := by
        apply (pushAll_perm _ _).trans
        rw [drained.queue, List.append_nil]
        exact drained.retained
      have repNext := rep.setReady queueName (d.retained.foldl Heapq.heappush d.queue)
        fun entry member => filed entry (mem_uncancelled.mp (perm.mem_iff.mp member)).1
      obtain ⟨found, ready, result', repReady, scanned, members⟩ := ih repNext d.candidates
      refine ⟨found, ready, result', repReady, ⟨?_, ?_, (settled_uncancel perm).trans scanned.settled⟩, ?_⟩
      · intro name member
        by_cases listed : name ∈ names
        · apply (scanned.inside name listed).trans
          show (q.uncancelled ((q.ready.set queueName _).getD name [])).Perm _
          rw [getD_set]
          split
          · rename_i same
            rw [same]
            apply (q.uncancelled_perm perm).trans
            rw [uncancelled, uncancelled, List.filter_filter]
            simp only [Bool.and_self]
            exact List.Perm.refl _
          · exact List.Perm.refl _
        · obtain rfl : name = queueName := (List.mem_cons.mp member).resolve_right listed
          rw [scanned.outside name listed, getD_set, if_pos rfl]
          exact perm
      · intro name absent
        obtain ⟨different, unlisted⟩ := not_or.mp (fun h => absent (List.mem_cons.mpr h))
        rw [scanned.outside name unlisted, getD_set, if_neg different]
      · intro item
        rw [members item, drained.candidates item, List.mem_cons]
        show (_ ∨ item.2 ∈ names ∧ item.1 ∈ q.uncancelled ((q.ready.set queueName _).getD item.2 []) ∧
          q.eligible worker completed item.1) ↔ _
        have same : item.1 ∈ q.uncancelled
            ((q.ready.set queueName (d.retained.foldl Heapq.heappush d.queue)).getD item.2 []) ↔
            item.1 ∈ q.uncancelled (q.ready.getD item.2 []) := by
          rw [getD_set]
          split
          · rename_i here
            rw [here, mem_uncancelled, perm.mem_iff, mem_uncancelled]
            exact ⟨And.left, fun h => ⟨h, h.2⟩⟩
          · exact Iff.rfl
        rw [same]
        constructor
        · rintro ((old | ⟨here, rest⟩) | ⟨listed, rest⟩)
          · exact Or.inl old
          · exact Or.inr ⟨Or.inl here, by rw [here]; exact rest.1, rest.2⟩
          · exact Or.inr ⟨Or.inr listed, rest⟩
        · rintro (old | ⟨here | listed, rest⟩)
          · exact Or.inl (Or.inl old)
          · rw [here] at rest
            exact Or.inl (Or.inr ⟨here, rest⟩)
          · exact Or.inr ⟨listed, rest⟩

/-! ### The choice -/

theorem minCandidate_mem {items : List (ReadyEntry × String)} {best : ReadyEntry × String}
    (chosen : minCandidate items = some best) : best ∈ items := by
  cases items with
  | nil => cases chosen
  | cons first rest =>
    rw [minCandidate, Option.some.injEq] at chosen
    have fold : ∀ (rest : List (ReadyEntry × String)) (start : ReadyEntry × String),
        rest.foldl (fun best item => if item.1 < best.1 then item else best) start ∈ start :: rest := by
      intro rest
      induction rest with
      | nil => exact fun start => List.mem_cons_self
      | cons item rest ih =>
        intro start
        rcases List.mem_cons.mp (ih (if item.1 < start.1 then item else start)) with same | later
        · rw [List.foldl_cons, same]
          split
          · exact List.mem_cons_of_mem _ List.mem_cons_self
          · exact List.mem_cons_self
        · exact List.mem_cons_of_mem _ (List.mem_cons_of_mem _ later)
    rw [← chosen]
    exact fold rest first

/-- The candidate that `min` picks is least. -/
theorem minCandidate_least {items : List (ReadyEntry × String)} {best : ReadyEntry × String}
    (chosen : minCandidate items = some best) : ∀ item ∈ items, best.1 ≤ item.1 := by
  cases items with
  | nil => cases chosen
  | cons first rest =>
    rw [minCandidate, Option.some.injEq] at chosen
    have fold : ∀ (rest : List (ReadyEntry × String)) (start : ReadyEntry × String),
        (rest.foldl (fun best item => if item.1 < best.1 then item else best) start).1 ≤ start.1 ∧
          ∀ item ∈ rest,
            (rest.foldl (fun best item => if item.1 < best.1 then item else best) start).1 ≤ item.1 := by
      intro rest
      induction rest with
      | nil =>
        intro start
        exact ⟨le_refl _, fun _ member => by cases member⟩
      | cons next rest ih =>
        intro start
        obtain ⟨below, least⟩ := ih (if next.1 < start.1 then next else start)
        rw [List.foldl_cons]
        have both : (if next.1 < start.1 then next else start).1 ≤ start.1 ∧
            (if next.1 < start.1 then next else start).1 ≤ next.1 := by
          split
          · rename_i less
            exact ⟨less.le, le_refl _⟩
          · rename_i more
            exact ⟨le_refl _, not_lt.mp more⟩
        refine ⟨below.trans both.1, ?_⟩
        intro item member
        rcases List.mem_cons.mp member with rfl | later
        · exact below.trans both.2
        · exact least item later
    obtain ⟨below, least⟩ := fold rest first
    rw [chosen] at below least
    intro item member
    rcases List.mem_cons.mp member with rfl | later
    · exact below
    · exact least item later

/-- What `_pop_eligible_locked` does when it returns a task: after the scan it takes the least eligible entry out
of its heap. -/
structure Popped (q : InMemoryTaskQueue) (worker : WorkerInfo) (completed : Finset String)
    (ready : Dict String (List ReadyEntry)) (queueName : String) (entry : ReadyEntry) (task : TaskRef)
    (rest : List ReadyEntry) : Prop where
  scanned : Scanned q worker.queues ready
  represented : Represented { q with ready := ready.set queueName rest }
  subscribed : queueName ∈ worker.queues
  listed : entry ∈ q.uncancelled (q.ready.getD queueName [])
  found : q.tasks.get? entry.taskId = some task
  accepts : worker.accepts (q.objects task) = true
  dependencies : (q.objects task).spec.dependsOn ⊆ completed
  least : ∀ name ∈ worker.queues, ∀ other ∈ q.uncancelled (q.ready.getD name []),
    q.eligible worker completed other → entry ≤ other
  taken : (ready.getD queueName []).Perm (entry :: rest)

theorem popEligibleLocked_spec {q : InMemoryTaskQueue} (rep : Represented q) (worker : WorkerInfo)
    (completed : Finset String) :
    (∃ ready, q.popEligibleLocked worker completed = (.ok none, { q with ready }) ∧ Represented { q with ready } ∧
      Scanned q worker.queues ready ∧
      ∀ name ∈ worker.queues, ∀ entry ∈ q.uncancelled (q.ready.getD name []), ¬ q.eligible worker completed entry) ∨
    ∃ ready queueName entry task rest, q.popEligibleLocked worker completed =
        (.ok (some task), { q with ready := ready.set queueName rest }) ∧
      Popped q worker completed ready queueName entry task rest := by
  obtain ⟨found, ready, result, repReady, scanned, members⟩ :=
    scanQueues_spec worker completed worker.queues rep []
  have candidate : ∀ name ∈ worker.queues, ∀ entry ∈ q.uncancelled (q.ready.getD name []),
      q.eligible worker completed entry → (entry, name) ∈ found := by
    intro name listed entry kept eligible
    exact (members (entry, name)).mpr (Or.inr ⟨listed, kept, eligible⟩)
  unfold popEligibleLocked
  rw [result]
  simp only []
  cases chosen : minCandidate found with
  | none =>
    have empty : found = [] := by
      cases found with
      | nil => rfl
      | cons => cases chosen
    refine Or.inl ⟨ready, rfl, repReady, scanned, ?_⟩
    intro name listed entry kept eligible
    have member := candidate name listed entry kept eligible
    rw [empty] at member
    cases member
  | some item =>
    obtain ⟨entry, queueName⟩ := item
    right
    have member := ((members _).mp (minCandidate_mem chosen)).resolve_left List.not_mem_nil
    obtain ⟨listed, kept, task, known, accepts, dependencies⟩ := member
    have present : entry ∈ ready.getD queueName [] := (scanned.inside queueName listed).mem_iff.mpr kept
    have perm : (ready.getD queueName []).Perm
        (entry :: Heapq.heapify ((ready.getD queueName []).erase entry)) :=
      (List.perm_cons_erase present).trans ((Heapq.heapify_perm _).symm.cons entry)
    simp only [present, if_true]
    simp only at known
    refine ⟨ready, queueName, entry, task, _, by rw [known], scanned, ?_, listed, kept, known, accepts, dependencies,
      ?_, perm⟩
    · exact repReady.setReady _ _ fun other inside =>
        repReady.ready queueName other (perm.mem_iff.mpr (List.mem_cons_of_mem _ inside))
    · intro name subscribed other there eligible
      exact minCandidate_least chosen _ (candidate name subscribed other there eligible)

end InMemoryTaskQueue

end TaskRunner
