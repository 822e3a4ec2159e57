import TaskRunner.Queue.Custody

/-!
The failed attempts a task is charged with. A call charges the ids whose attempts it raises, and the dead letters are
the tasks charged beyond their budget.
-/

namespace TaskRunner
open Base

namespace InMemoryTaskQueue

/-- The ids a call charges with a failed attempt. -/
def charged (q : InMemoryTaskQueue) : Call → List String
  | .retry taskId _ _ => if taskId ∈ q.tasks then [taskId] else []
  | .requeueExpiredLeases clock =>
    (q.inflight.entries.filter fun lease => q.expired (clock 0) lease.2).map Prod.fst
  | _ => []

/-- An expired lease is charged once. -/
theorem count_charged_expired {q : InMemoryTaskQueue} (rep : Represented q) (clock : Clock) {id : String} {l : Life}
    (alive : q.life id = some l) [Decidable (l.Overdue (clock 0))] :
    (q.charged (.requeueExpiredLeases clock)).count id = if l.Overdue (clock 0) then 1 else 0 := by
  obtain ⟨task, found, rfl⟩ := exists_of_life alive
  have distinct : (q.charged (.requeueExpiredLeases clock)).Nodup :=
    (List.filter_sublist.map Prod.fst).nodup q.inflight.nodup
  have listed : id ∈ q.charged (.requeueExpiredLeases clock) ↔ (q.lifeOf id task).Overdue (clock 0) := by
    simp only [charged, List.mem_map, List.mem_filter, Prod.exists, exists_and_right, exists_eq_right]
    constructor
    · intro given
      obtain ⟨ref, member, late⟩ := given
      have held := (q.inflight.mem_entries_iff id ref).mp member
      obtain rfl := Option.some.inj ((rep.inflight id ref held).symm.trans found)
      exact ⟨decide_eq_true (Dict.mem_of_get? held), expired_iff.mp late⟩
    · intro given
      obtain ⟨leased, late⟩ := given
      obtain ⟨ref, held⟩ := Dict.exists_of_mem (of_decide_eq_true leased)
      obtain rfl := Option.some.inj ((rep.inflight id ref held).symm.trans found)
      exact ⟨ref, (q.inflight.mem_entries_iff id ref).mpr held, expired_iff.mpr late⟩
  split
  · rename_i late
    exact List.count_eq_one_of_mem distinct (listed.mpr late)
  · rename_i early
    exact List.count_eq_zero.mpr fun member => early (listed.mp member)

/-- The attempts of a task are the charges so far, and it is a dead letter once they exceed its budget. -/
structure Owes (charges : ℕ) (l : Life) : Prop where
  attempts : l.task.attempts = charges
  dead : l.dead = true ↔ l.task.spec.maxRetries < l.task.attempts

variable {l m : Life} {n : ℕ}

theorem Owes.newborn (newborn : l.Newborn) : Owes 0 l := by
  refine ⟨newborn.attempts, ?_⟩
  rw [newborn.free.2.1, newborn.attempts]
  exact iff_of_false Bool.false_ne_true (not_lt.mpr newborn.budget)

theorem Owes.settles (owes : Owes n l) (settles : l.Settles m) : Owes n m := by
  refine ⟨?_, ?_⟩
  · rw [settles.task]
    exact owes.attempts
  · rw [settles.dead, settles.task]
    exact owes.dead

theorem Owes.retry (owes : Owes n l) (reason : String) (start now : ℚ) : Owes (n + 1) (l.retry reason start now) := by
  refine ⟨?_, ?_⟩
  · rw [Life.retry_attempts, owes.attempts]
    rfl
  · rw [Life.retry_task_spec, Life.retry_attempts]
    unfold Life.retry
    dsimp only
    split
    · -- a budget that is left now was left before
      rename_i within
      have within : l.task.attempts + 1 ≤ l.task.spec.maxRetries := within
      refine iff_of_false (fun dead => ?_) (not_lt.mpr within)
      have spent := owes.dead.mp dead
      omega
    · rename_i spent
      exact iff_of_true rfl (not_le.mp spent)

theorem Effect.owes {q : InMemoryTaskQueue} (rep : Represented q) {call : Call} {id : String} {l l' : Life}
    (effect : Effect q call id l l') (alive : q.life id = some l) (owes : Owes n l) :
    Owes (n + (q.charged call).count id) l' := by
  classical
  have known : id ∈ q.tasks := (life_isSome q id).mp (Option.isSome_of_eq_some alive)
  cases call with
  | submit | submitMany =>
    rw [show l' = l from effect]
    exact owes
  | snapshot => exact owes.settles effect
  | reserve worker completed leaseSeconds clock =>
    unfold Effect at effect
    dsimp only at effect
    split at effect
    · obtain ⟨_, m, settles, _, rfl⟩ := effect
      have kept := owes.settles settles
      exact ⟨kept.attempts, kept.dead⟩
    · exact owes.settles effect
  | complete taskId status error =>
    rw [show l' = _ from effect]
    split
    · exact ⟨owes.attempts, owes.dead⟩
    · exact owes
  | cancel taskId =>
    rw [show l' = _ from effect]
    split
    · exact ⟨owes.attempts, owes.dead⟩
    · exact owes
  | retry taskId reason clock =>
    rw [show l' = _ from effect]
    split
    · rename_i same
      subst same
      rw [charged, if_pos known, List.count_singleton_self]
      exact owes.retry reason _ _
    · rename_i different
      have spared : (q.charged (.retry taskId reason clock)).count id = 0 := by
        rw [List.count_eq_zero, charged]
        split
        · exact fun member => different (List.mem_singleton.mp member).symm
        · exact List.not_mem_nil
      rw [spared]
      exact owes
  | requeueExpiredLeases clock =>
    rw [count_charged_expired rep clock alive]
    obtain ⟨overdue, spared⟩ := effect
    split
    · rename_i late
      obtain ⟨k, rfl⟩ := overdue late
      exact owes.retry "lease expired" _ _
    · rename_i early
      rw [spared early]
      exact owes

/-- Only known tasks are charged. -/
theorem charged_known {q : InMemoryTaskQueue} (rep : Represented q) (call : Call) {id : String}
    (member : id ∈ q.charged call) : id ∈ q.tasks := by
  cases call with
  | retry taskId =>
    rw [charged] at member
    split at member
    · rename_i known
      rwa [List.mem_singleton.mp member]
    · cases member
  | requeueExpiredLeases clock =>
    obtain ⟨lease, listed, rfl⟩ := List.mem_map.mp member
    have held := (q.inflight.mem_entries_iff lease.1 lease.2).mp (List.mem_filter.mp listed).1
    exact Dict.mem_of_get? (rep.inflight lease.1 lease.2 held)
  | _ => cases member

/-- Along a run, with the ids charged so far. -/
def AllOwe (past : List String) (q : InMemoryTaskQueue) : Prop :=
  (∀ id l, q.life id = some l → Owes (past.count id) l) ∧ ∀ id, q.life id = none → past.count id = 0

theorem step_owes {past : List String} {q : InMemoryTaskQueue} (rep : Represented q) (owe : AllOwe past q)
    (call : Call) : AllOwe (past ++ q.charged call) (q.step call) := by
  have uncharged : ∀ id, q.life id = none → (q.charged call).count id = 0 := by
    intro id unknown
    refine List.count_eq_zero.mpr fun member => ?_
    have known := (life_isSome q id).mpr (charged_known rep call member)
    rw [unknown] at known
    cases known
  constructor
  · intro id l' alive'
    rw [List.count_append]
    cases alive : q.life id with
    | none =>
      rw [owe.2 id alive, uncharged id alive]
      exact .newborn (step_birth rep call alive alive')
    | some l =>
      by_cases issued : call.Issued q
      · obtain ⟨m, after, effect⟩ := (exec_stepped rep call issued).lives id l alive
        rw [step_issued issued] at alive'
        obtain rfl : m = l' := Option.some.inj (after.symm.trans alive')
        exact effect.owes rep alive (owe.1 id l alive)
      · have nothing : q.charged call = [] := by
          cases call with
          | retry | requeueExpiredLeases => exact (issued trivial).elim
          | _ => rfl
        rw [step_refused issued, alive, Option.some.injEq] at alive'
        rw [nothing, ← alive']
        exact owe.1 id l alive
  · intro id unknown'
    cases alive : q.life id with
    | none => rw [List.count_append, owe.2 id alive, uncharged id alive]
    | some l =>
      obtain ⟨l', after, _⟩ := step_life rep call alive
      rw [unknown'] at after
      cases after

theorem runCalls_owes (maxDepth : Int) (calls : List Call) :
    AllOwe (Machine.collect step charged (init maxDepth) calls) (runCalls maxDepth calls) := by
  have start : AllOwe [] (init maxDepth) := by
    refine ⟨?_, fun _ _ => rfl⟩
    intro id l alive
    cases alive
  let J : List String → InMemoryTaskQueue → Prop := fun past q => Represented q ∧ AllOwe past q
  have both : J ([] ++ Machine.collect step charged (init maxDepth) calls) (runCalls maxDepth calls) :=
    Machine.history_invariant (fun past q call held => ⟨step_represented held.1 call, step_owes held.1 held.2 call⟩)
    ⟨represented_init maxDepth, start⟩ calls
  exact both.2

end InMemoryTaskQueue

end TaskRunner
