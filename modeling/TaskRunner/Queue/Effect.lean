import TaskRunner.Queue.Operations

/-!
What each call does to each task, and the induction rules for runs of calls that follow from it.
-/

namespace TaskRunner
open Base

/-- The task is leased and its lease ran out before `now`. -/
def Life.Overdue (l : Life) (now : ℚ) : Prop :=
  l.leased = true ∧ ∃ deadline, l.task.leaseDeadline = some deadline ∧ deadline < now

namespace InMemoryTaskQueue

/-! ### Lease expiry -/

theorem expired_iff {q : InMemoryTaskQueue} {now : ℚ} {task : TaskRef} :
    q.expired now task = true ↔ ∃ deadline, (q.objects task).leaseDeadline = some deadline ∧ deadline < now := by
  unfold expired
  cases (q.objects task).leaseDeadline <;> simp

/-- The loop over the listed leases retries each expired one once and touches no other task. -/
theorem requeueLoop_spec (now : ℚ) (pending : List (String × TaskRef)) {q : InMemoryTaskQueue} (rep : Represented q)
    (distinct : (pending.map Prod.fst).Nodup) (listed : ∀ id task, (id, task) ∈ pending → q.tasks.get? id = some task)
    (clock : Clock) :
    ∃ r, requeueLoop now pending q clock =
        (.ok ((pending.filter (fun lease => q.expired now lease.2)).map Prod.snd), r) ∧
      Represented r ∧ r.tasks = q.tasks ∧ r.maxDepth = q.maxDepth ∧
      (∀ id task, (id, task) ∈ pending → q.expired now task = true →
        ∃ k, r.lifeOf id task = (q.lifeOf id task).retry "lease expired" (clock k) (clock (k + 1))) ∧
      ∀ id task, q.tasks.get? id = some task → ¬ ((id, task) ∈ pending ∧ q.expired now task = true) →
        r.lifeOf id task = q.lifeOf id task := by
  induction pending generalizing q clock with
  | nil =>
    refine ⟨q, rfl, rep, rfl, rfl, ?_, fun _ _ _ _ => rfl⟩
    intro id task member
    cases member
  | cons lease rest ih =>
    obtain ⟨id, task⟩ := lease
    have found : q.tasks.get? id = some task := listed id task List.mem_cons_self
    have later : ∀ other ref, (other, ref) ∈ rest → other ≠ id := fun _ _ member => fst_ne_of_nodup distinct member
    rw [List.map_cons, List.nodup_cons] at distinct
    by_cases due : q.expired now task = true
    · obtain ⟨r, result, acted⟩ :=
        retry_spec (rep.freed id task) (show (q.freed id task).tasks.get? id = some task from found) "lease expired" clock
      have others : ∀ other ref, q.tasks.get? other = some ref → other ≠ id →
          r.lifeOf other ref = q.lifeOf other ref := by
        intro other ref known different
        rw [acted.others other ref known different, lifeOf_freed_other rep found known different]
      have known : ∀ other ref, (other, ref) ∈ rest → r.tasks.get? other = some ref := by
        intro other ref member
        rw [acted.tasks]
        exact listed other ref (List.mem_cons_of_mem _ member)
      have same : ∀ other ref, q.tasks.get? other = some ref → other ≠ id →
          r.expired now ref = q.expired now ref := by
        intro other ref known' different
        exact expired_congr (congrArg Life.task (others other ref known' different)) now
      obtain ⟨s, result', repS, tasks, depth, taken, kept⟩ := ih acted.represented distinct.2 known (clock.later 2)
      rw [requeueLoop_due due result, result']
      refine ⟨s, ?_, repS, tasks.trans acted.tasks, depth.trans acted.maxDepth, ?_, ?_⟩
      · have refs : rest.filter (fun lease => r.expired now lease.2) =
            rest.filter (fun lease => q.expired now lease.2) :=
          List.filter_congr fun lease member =>
            same lease.1 lease.2 (listed _ _ (List.mem_cons_of_mem _ member)) (later _ _ member)
        simp only [List.filter_cons, due, if_true, List.map_cons, refs]
        rfl
      · intro other ref member overdue
        rcases List.mem_cons.mp member with here | member
        · obtain ⟨rfl, rfl⟩ := Prod.mk.inj here
          refine ⟨0, ?_⟩
          have absent : ¬ ((other, ref) ∈ rest ∧ r.expired now ref = true) := fun h => later _ _ h.1 rfl
          rw [kept other ref (by rw [acted.tasks]; exact found) absent, acted.self, lifeOf_freed_self]
          rfl
        · have before := listed other ref (List.mem_cons_of_mem _ member)
          have different := later other ref member
          obtain ⟨k, retried⟩ := taken other ref member (by rw [same other ref before different]; exact overdue)
          refine ⟨k + 2, ?_⟩
          rw [retried, others other ref before different]
          simp only [Clock.later, show 2 + k = k + 2 by omega, show 2 + (k + 1) = k + 2 + 1 by omega]
      · intro other ref known' spared
        have different : other ≠ id := by
          rintro rfl
          obtain rfl : ref = task := Option.some.inj (known'.symm.trans found)
          exact spared ⟨List.mem_cons_self, due⟩
        rw [kept other ref (by rw [acted.tasks]; exact known') ?_, others other ref known' different]
        intro given
        obtain ⟨member, overdue⟩ := given
        rw [same other ref known' different] at overdue
        exact spared ⟨List.mem_cons_of_mem _ member, overdue⟩
    · obtain ⟨r, result, repR, tasks, depth, taken, kept⟩ := ih rep distinct.2
        (fun other ref member => listed other ref (List.mem_cons_of_mem _ member)) clock
      rw [requeueLoop_early due, result]
      refine ⟨r, ?_, repR, tasks, depth, ?_, ?_⟩
      · simp only [List.filter_cons, due, if_false, Bool.false_eq_true]
      · intro other ref member overdue
        rcases List.mem_cons.mp member with here | member
        · obtain ⟨rfl, rfl⟩ := Prod.mk.inj here
          exact (due overdue).elim
        · exact taken other ref member overdue
      · intro other ref known' spared
        apply kept other ref known'
        intro given
        exact spared ⟨List.mem_cons_of_mem _ given.1, given.2⟩

structure Requeued (q : InMemoryTaskQueue) (clock : Clock) (r : InMemoryTaskQueue) : Prop where
  represented : Represented r
  tasks : r.tasks = q.tasks
  maxDepth : r.maxDepth = q.maxDepth
  taken : ∀ id task, q.tasks.get? id = some task → (q.lifeOf id task).Overdue (clock 0) →
    ∃ k, r.lifeOf id task = (q.lifeOf id task).retry "lease expired" (clock k) (clock (k + 1))
  spared : ∀ id task, q.tasks.get? id = some task → ¬ (q.lifeOf id task).Overdue (clock 0) →
    r.lifeOf id task = q.lifeOf id task

theorem requeue_spec {q : InMemoryTaskQueue} (rep : Represented q) (clock : Clock) :
    ∃ r, q.requeueExpiredLeases clock =
        (.ok ((q.inflight.entries.filter (fun lease => q.expired (clock 0) lease.2)).map Prod.snd), r) ∧
      Requeued q clock r := by
  have leases : ∀ id task, (id, task) ∈ q.inflight.entries → q.tasks.get? id = some task := by
    intro id task member
    exact rep.inflight id task ((q.inflight.mem_entries_iff id task).mp member)
  obtain ⟨r, result, repR, tasks, depth, taken, kept⟩ :=
    requeueLoop_spec (clock 0) q.inflight.entries rep q.inflight.nodup leases (clock.later 1)
  have overdue : ∀ id task, q.tasks.get? id = some task →
      ((q.lifeOf id task).Overdue (clock 0) ↔
        (id, task) ∈ q.inflight.entries ∧ q.expired (clock 0) task = true) := by
    intro id task found
    rw [expired_iff, Dict.mem_entries_iff]
    apply and_congr_left
    intro _
    rw [lifeOf, decide_eq_true_iff]
    constructor
    · intro leased
      obtain ⟨other, held⟩ := Dict.exists_of_mem leased
      rw [held, Option.some.injEq]
      exact Option.some.inj ((rep.inflight id other held).symm.trans found)
    · exact Dict.mem_of_get?
  refine ⟨r, result, repR, tasks, depth, ?_, ?_⟩
  · intro id task found late
    obtain ⟨member, due⟩ := (overdue id task found).mp late
    obtain ⟨k, retried⟩ := taken id task member due
    refine ⟨k + 1, ?_⟩
    rw [retried]
    simp only [Clock.later, show 1 + k = k + 1 by omega, show 1 + (k + 1) = k + 1 + 1 by omega]
  · intro id task found early
    exact kept id task found fun h => early ((overdue id task found).mpr h)

/-! ### One step -/

/-- What a call does to the task `id`, whose life is `l` before the call and `l'` after it. -/
def Effect (q : InMemoryTaskQueue) (call : Call) (id : String) (l l' : Life) : Prop :=
  match call with
  | .submit .. | .submitMany .. => l' = l
  | .reserve worker _ leaseSeconds clock =>
    if q.handed call = some id then
      l.cancelled = false ∧
        ∃ m, l.Settles m ∧ 0 < m.ready ∧ l' = m.dispatch worker.workerId (clock 1 + leaseSeconds)
    else l.Settles l'
  | .complete taskId status error => l' = if taskId = id then l.complete status error else l
  | .retry taskId reason clock => l' = if taskId = id then l.retry reason (clock 0) (clock 1) else l
  | .cancel taskId => l' = if taskId = id then l.cancel else l
  | .requeueExpiredLeases clock =>
    (l.Overdue (clock 0) → ∃ k, l' = l.retry "lease expired" (clock k) (clock (k + 1))) ∧
      (¬ l.Overdue (clock 0) → l' = l)
  | .snapshot _ => l.Settles l'

/-- The same as one of six moves. A call that does nothing else to the task still settles it. -/
inductive Move (q : InMemoryTaskQueue) (call : Call) (id : String) (l : Life) : Life → Prop where
  | settle {m : Life} (settles : l.Settles m) (unhanded : q.handed call ≠ some id) : Move q call id l m
  | dispatch {worker : WorkerInfo} {completed : Finset String} {leaseSeconds : ℚ} {clock : Clock} {m : Life}
      (made : call = .reserve worker completed leaseSeconds clock) (handed : q.handed call = some id)
      (live : l.cancelled = false) (settles : l.Settles m) (positive : 0 < m.ready) :
      Move q call id l (m.dispatch worker.workerId (clock 1 + leaseSeconds))
  | complete {status : TaskStatus} {error : Option String} (made : call = .complete id status error) :
      Move q call id l (l.complete status error)
  | retry {reason : String} {clock : Clock} (made : call = .retry id reason clock) :
      Move q call id l (l.retry reason (clock 0) (clock 1))
  | cancel (made : call = .cancel id) : Move q call id l l.cancel
  | expire {clock : Clock} {k : ℕ} (made : call = .requeueExpiredLeases clock) (late : l.Overdue (clock 0)) :
      Move q call id l (l.retry "lease expired" (clock k) (clock (k + 1)))

theorem Effect.move {q : InMemoryTaskQueue} {call : Call} {id : String} {l l' : Life}
    (effect : Effect q call id l l') : Move q call id l l' := by
  cases call with
  | submit | submitMany =>
    rw [show l' = l from effect]
    exact .settle (.refl l) nofun
  | snapshot => exact .settle effect nofun
  | reserve worker completed leaseSeconds clock =>
    unfold Effect at effect
    dsimp only at effect
    split at effect
    · rename_i handed
      obtain ⟨live, m, settles, positive, rfl⟩ := effect
      exact .dispatch rfl handed live settles positive
    · rename_i unhanded
      exact .settle effect unhanded
  | complete taskId status error =>
    rw [show l' = _ from effect]
    split
    · rename_i same
      exact .complete (by rw [same])
    · exact .settle (.refl l) nofun
  | retry taskId reason clock =>
    rw [show l' = _ from effect]
    split
    · rename_i same
      exact .retry (by rw [same])
    · exact .settle (.refl l) nofun
  | cancel taskId =>
    rw [show l' = _ from effect]
    split
    · rename_i same
      exact .cancel (by rw [same])
    · exact .settle (.refl l) nofun
  | requeueExpiredLeases clock =>
    obtain ⟨overdue, spared⟩ := effect
    by_cases late : l.Overdue (clock 0)
    · obtain ⟨k, rfl⟩ := overdue late
      exact .expire rfl late
    · rw [spared late]
      exact .settle (.refl l) nofun

theorem step_issued {q : InMemoryTaskQueue} {call : Call} (issued : call.Issued q) : q.step call = q.exec call :=
  if_pos issued

theorem step_refused {q : InMemoryTaskQueue} {call : Call} (refused : ¬ call.Issued q) : q.step call = q :=
  if_neg refused

theorem Acted.life {q r : InMemoryTaskQueue} {taskId : String} {task : TaskRef} {act : Life → Life}
    (acted : Acted q taskId task act r) (named : q.tasks.get? taskId = some task) {id : String} {l : Life}
    (alive : q.life id = some l) : r.life id = some (if taskId = id then act l else l) := by
  obtain ⟨ref, found, rfl⟩ := exists_of_life alive
  rw [life_eq (by rw [acted.tasks]; exact found), Option.some.injEq]
  by_cases same : taskId = id
  · subst same
    obtain rfl : ref = task := Option.some.inj (found.symm.trans named)
    rw [if_pos rfl]
    exact acted.self
  · rw [if_neg same]
    exact acted.others id ref found (Ne.symm same)

theorem unknown_ne {q : InMemoryTaskQueue} {taskId id : String} {l : Life} (unknown : q.tasks.get? taskId = none)
    (alive : q.life id = some l) : taskId ≠ id := by
  rintro rfl
  rw [life, unknown] at alive
  cases alive

theorem handed_none {q r : InMemoryTaskQueue} {worker : WorkerInfo} {completed : Finset String} {leaseSeconds : ℚ}
    {clock : Clock} (result : q.reserve worker completed leaseSeconds clock = (.ok none, r)) :
    q.handed (.reserve worker completed leaseSeconds clock) = none := by
  simp only [handed, result]

theorem handed_some {q r : InMemoryTaskQueue} {worker : WorkerInfo} {completed : Finset String} {leaseSeconds : ℚ}
    {clock : Clock} {id : String} {task : TaskRef}
    (result : q.reserve worker completed leaseSeconds clock = (.ok (some task), r))
    (dispatched : Dispatched q worker completed (clock 0) (clock 1 + leaseSeconds) id task r) :
    q.handed (.reserve worker completed leaseSeconds clock) = some id := by
  have known : r.tasks.get? id = some task := by rw [dispatched.tasks]; exact dispatched.found
  simp only [handed, result, dispatched.represented.named id task known]

structure Stepped (q : InMemoryTaskQueue) (call : Call) (r : InMemoryTaskQueue) : Prop where
  represented : Represented r
  maxDepth : r.maxDepth = q.maxDepth
  tasks : call.submits = false → r.tasks = q.tasks
  lives : ∀ id l, q.life id = some l → ∃ l', r.life id = some l' ∧ Effect q call id l l'
  births : ∀ id l, id ∉ q.tasks → r.life id = some l → l.Newborn

theorem unborn {q r : InMemoryTaskQueue} (tasks : r.tasks = q.tasks) (id : String) (l : Life) (unknown : id ∉ q.tasks)
    (alive : r.life id = some l) : l.Newborn := by
  have known := (life_isSome r id).mp (Option.isSome_of_eq_some alive)
  rw [tasks] at known
  exact (unknown known).elim

theorem submit_stepped {q : InMemoryTaskQueue} (rep : Represented q) {task : Submission} (new : task.taskId ∉ q.tasks)
    (clock : Clock) : Stepped q (.submit task clock) (q.exec (.submit task clock)) := by
  rcases submit_spec rep task new clock with ⟨_, result⟩ | ⟨r, result, submitted⟩
  · rw [exec, result]
    exact ⟨rep, rfl, fun _ => rfl, fun id l alive => ⟨l, alive, rfl⟩, unborn rfl⟩
  · rw [exec, result]
    refine ⟨submitted.represented, submitted.maxDepth, (fun idle => by cases idle), ?_, ?_⟩
    · intro id l alive
      obtain ⟨ref, found, rfl⟩ := exists_of_life alive
      have different : id ≠ task.taskId := by
        rintro rfl
        exact new (Dict.mem_of_get? found)
      refine ⟨_, life_eq (by rw [submitted.tasks, Dict.get?_set_ne _ different]; exact found), ?_⟩
      exact submitted.others id ref found
    · intro id l unknown alive
      have known := (life_isSome r id).mp (Option.isSome_of_eq_some alive)
      rw [submitted.tasks, Dict.mem_set] at known
      obtain rfl := known.resolve_right unknown
      rw [life_eq (by rw [submitted.tasks, Dict.get?_set_self]), Option.some.injEq] at alive
      rw [← alive]
      exact submitted.newborn

theorem reserve_stepped {q : InMemoryTaskQueue} (rep : Represented q) (worker : WorkerInfo)
    (completed : Finset String) (leaseSeconds : ℚ) (clock : Clock) :
    Stepped q (.reserve worker completed leaseSeconds clock) (q.exec (.reserve worker completed leaseSeconds clock)) := by
  rcases reserve_spec rep worker completed leaseSeconds clock with
      ⟨r, result, repR, settled⟩ | ⟨r, taskId, task, result, dispatched⟩
  · rw [exec, result]
    refine ⟨repR, settled.maxDepth, fun _ => settled.tasks, ?_, unborn settled.tasks⟩
    intro id l alive
    obtain ⟨m, alive', settles⟩ := settled.life alive
    refine ⟨m, alive', ?_⟩
    simp only [Effect, handed_none result, reduceCtorEq, if_false]
    exact settles
  · rw [exec, result]
    refine ⟨dispatched.represented, dispatched.maxDepth, fun _ => dispatched.tasks, ?_, unborn dispatched.tasks⟩
    intro id l alive
    obtain ⟨ref, found, rfl⟩ := exists_of_life alive
    refine ⟨r.lifeOf id ref, life_eq (by rw [dispatched.tasks]; exact found), ?_⟩
    simp only [Effect, handed_some result dispatched, Option.some.injEq]
    by_cases same : taskId = id
    · subst same
      obtain rfl : ref = task := Option.some.inj (found.symm.trans dispatched.found)
      rw [if_pos rfl]
      exact ⟨decide_eq_false dispatched.live, dispatched.taken⟩
    · rw [if_neg same]
      exact dispatched.others id ref found (Ne.symm same)

/-- A call that acts on the task it names, when it knows it, and otherwise changes nothing. -/
theorem acted_stepped {q r : InMemoryTaskQueue} (rep : Represented q) {call : Call} (taskId : String) (act : Life → Life)
    (known : ∀ task, q.tasks.get? taskId = some task → Acted q taskId task act r)
    (unknown : q.tasks.get? taskId = none → r = q)
    (effect : ∀ id l, Effect q call id l (if taskId = id then act l else l)) : Stepped q call r := by
  cases named : q.tasks.get? taskId with
  | none =>
    obtain rfl := unknown named
    refine ⟨rep, rfl, fun _ => rfl, ?_, unborn rfl⟩
    intro id l alive
    have untouched := effect id l
    rw [if_neg (unknown_ne named alive)] at untouched
    exact ⟨l, alive, untouched⟩
  | some task =>
    have acted := known task named
    exact ⟨acted.represented, acted.maxDepth, fun _ => acted.tasks,
      fun id l alive => ⟨_, acted.life named alive, effect id l⟩, unborn acted.tasks⟩

theorem exec_stepped {q : InMemoryTaskQueue} (rep : Represented q) (call : Call) (issued : call.Issued q) :
    Stepped q call (q.exec call) := by
  cases call with
  | submit task clock => exact submit_stepped rep issued clock
  | submitMany batch clock =>
    obtain ⟨repR, depth, older, newborn⟩ := submitMany_spec rep batch issued.1 issued.2 clock
    exact ⟨repR, depth, (fun idle => by cases idle), fun id l alive => ⟨l, older id l alive, rfl⟩, newborn⟩
  | reserve worker completed leaseSeconds clock => exact reserve_stepped rep worker completed leaseSeconds clock
  | complete taskId status error =>
    refine acted_stepped rep taskId (fun l => l.complete status error) ?_ ?_ fun _ _ => rfl
    · intro task named
      have final : status ≠ .deadLettered := by rcases issued with rfl | rfl <;> decide
      obtain ⟨r, result, acted⟩ := complete_spec rep named status final error
      rw [exec, result]
      exact acted
    · intro unknown
      rw [exec, complete_unknown rep unknown]
  | retry taskId reason clock =>
    refine acted_stepped rep taskId (fun l => l.retry reason (clock 0) (clock 1)) ?_ ?_
      fun _ _ => rfl
    · intro task named
      obtain ⟨r, result, acted⟩ := retry_spec rep named reason clock
      rw [exec, result]
      exact acted
    · intro unknown
      rw [exec, retry_unknown rep unknown]
  | cancel taskId =>
    refine acted_stepped rep taskId Life.cancel ?_ ?_ fun _ _ => rfl
    · intro task named
      obtain ⟨r, result, acted⟩ := cancel_spec rep named
      rw [exec, result]
      exact acted
    · intro unknown
      rw [exec, cancel_unknown unknown]
  | requeueExpiredLeases clock =>
    obtain ⟨r, result, requeued⟩ := requeue_spec rep clock
    rw [exec, result]
    refine ⟨requeued.represented, requeued.maxDepth, fun _ => requeued.tasks, ?_, unborn requeued.tasks⟩
    intro id l alive
    obtain ⟨ref, found, rfl⟩ := exists_of_life alive
    exact ⟨r.lifeOf id ref, life_eq (by rw [requeued.tasks]; exact found), requeued.taken id ref found,
      requeued.spared id ref found⟩
  | snapshot now =>
    obtain ⟨repR, settled⟩ := promote_settled rep now
    exact ⟨repR, settled.maxDepth, fun _ => settled.tasks, fun id l alive => settled.life alive,
      unborn settled.tasks⟩

theorem step_represented {q : InMemoryTaskQueue} (rep : Represented q) (call : Call) : Represented (q.step call) := by
  by_cases issued : call.Issued q
  · rw [step_issued issued]
    exact (exec_stepped rep call issued).represented
  · rw [step_refused issued]
    exact rep

theorem step_maxDepth {q : InMemoryTaskQueue} (rep : Represented q) (call : Call) :
    (q.step call).maxDepth = q.maxDepth := by
  by_cases issued : call.Issued q
  · rw [step_issued issued]
    exact (exec_stepped rep call issued).maxDepth
  · rw [step_refused issued]

theorem run_represented {q : InMemoryTaskQueue} (rep : Represented q) (calls : List Call) :
    Represented (Machine.run step q calls) :=
  Machine.run_invariant (I := Represented) (fun _ call rep => step_represented rep call) rep calls

theorem runCalls_represented (maxDepth : Int) (calls : List Call) : Represented (runCalls maxDepth calls) :=
  run_represented (represented_init maxDepth) calls

/-! ### Lives over runs -/

theorem task?_of_life {q : InMemoryTaskQueue} {id : String} {l : Life} (alive : q.life id = some l) :
    q.task? id = some l.task := by
  obtain ⟨task, found, rfl⟩ := exists_of_life alive
  rw [task?, found]
  rfl

theorem life_of_task? {q : InMemoryTaskQueue} {id : String} {task : TaskEnvelope} (named : q.task? id = some task) :
    ∃ l, q.life id = some l ∧ l.task = task := by
  obtain ⟨ref, found, rfl⟩ := Option.map_eq_some_iff.mp named
  exact ⟨_, life_eq found, rfl⟩

theorem step_life {q : InMemoryTaskQueue} (rep : Represented q) (call : Call) {id : String} {l : Life}
    (alive : q.life id = some l) :
    ∃ l', (q.step call).life id = some l' ∧ (l' = l ∨ call.Issued q ∧ Effect q call id l l') := by
  by_cases issued : call.Issued q
  · rw [step_issued issued]
    obtain ⟨l', alive', effect⟩ := (exec_stepped rep call issued).lives id l alive
    exact ⟨l', alive', Or.inr ⟨issued, effect⟩⟩
  · rw [step_refused issued]
    exact ⟨l, alive, Or.inl rfl⟩

theorem step_birth {q : InMemoryTaskQueue} (rep : Represented q) (call : Call) {id : String} {l : Life}
    (unknown : q.life id = none) (alive : (q.step call).life id = some l) : l.Newborn := by
  have absent : id ∉ q.tasks := by
    rw [← life_isSome, unknown]
    exact Bool.false_ne_true
  by_cases issued : call.Issued q
  · rw [step_issued issued] at alive
    exact (exec_stepped rep call issued).births id l absent alive
  · rw [step_refused issued, unknown] at alive
    cases alive

theorem submit_reference {q : InMemoryTaskQueue} {task : TaskEnvelope} {id : String} (other : task.taskId ≠ id)
    (clock : Clock) : (q.submit task clock).2.tasks.get? id = q.tasks.get? id := by
  unfold submit
  split
  · rfl
  · dsimp only
    rw [push_tasks, Dict.get?_set_ne _ (Ne.symm other)]
    rfl

theorem submitMany_reference {q : InMemoryTaskQueue} {batch : List TaskEnvelope} {id : String}
    (other : ∀ task ∈ batch, task.taskId ≠ id) (clock : Clock) :
    (q.submitMany batch clock).2.tasks.get? id = q.tasks.get? id := by
  induction batch generalizing q clock with
  | nil => rfl
  | cons task rest ih =>
    have first := submit_reference (q := q) (other task List.mem_cons_self) clock
    cases result : q.submit task clock with
    | mk outcome r =>
      rw [result] at first
      cases outcome with
      | error e =>
        rw [submitMany, result]
        exact first
      | ok ref =>
        rw [submitMany_cons result, ih fun later member => other later (List.mem_cons_of_mem _ member)]
        exact first

/-- A batch that is let in returns the references of its tasks. -/
theorem submitMany_refs {q r : InMemoryTaskQueue} (rep : Represented q) (batch : List Submission)
    (new : ∀ task ∈ batch, task.taskId ∉ q.tasks) (distinct : (batch.map Submission.taskId).Nodup) {clock : Clock}
    {refs : List TaskRef} (result : q.submitMany (batch.map Submission.envelope) clock = (.ok refs, r)) :
    (∀ task ∈ batch, ∃ ref ∈ refs, r.tasks.get? task.taskId = some ref) ∧
      ∀ ref ∈ refs, ∃ id, r.tasks.get? id = some ref := by
  induction batch generalizing q clock refs with
  | nil =>
    obtain rfl := Except.ok.inj (Prod.mk.inj result).1
    constructor
    · intro task member
      cases member
    · intro ref member
      cases member
  | cons task rest ih =>
    rw [List.map_cons, submitMany] at result
    rcases submit_spec rep task (new task List.mem_cons_self) clock with ⟨_, refused⟩ | ⟨r₁, first, submitted⟩
    · rw [refused] at result
      cases result
    · rw [first] at result
      simp only [] at result
      split at result
      · cases result
      · rename_i later r₂ done
        obtain ⟨same, rfl⟩ := Prod.mk.inj result
        obtain rfl := Except.ok.inj same
        have fresh := fresh_of_registered submitted.tasks new distinct
        obtain ⟨named, known⟩ := ih submitted.represented fresh (List.nodup_cons.mp distinct).2 done
        have here : r₂.tasks.get? task.taskId = some q.allocated := by
          have kept : (r₁.submitMany (rest.map Submission.envelope) (clock.later 2)).2.tasks.get? task.taskId =
              r₁.tasks.get? task.taskId := by
            refine submitMany_reference (fun other member => ?_) (clock.later 2)
            obtain ⟨submission, there, rfl⟩ := List.mem_map.mp member
            intro same
            exact (List.nodup_cons.mp distinct).1 (List.mem_map.mpr ⟨submission, there, same⟩)
          rw [done] at kept
          rw [kept, submitted.tasks, Dict.get?_set_self]
        refine ⟨fun other member => ?_, fun ref member => ?_⟩
        · rcases List.mem_cons.mp member with rfl | later
          · exact ⟨q.allocated, List.mem_cons_self, here⟩
          · obtain ⟨ref, listed, found⟩ := named other later
            exact ⟨ref, List.mem_cons_of_mem _ listed, found⟩
        · rcases List.mem_cons.mp member with rfl | later
          · exact ⟨task.taskId, here⟩
          · exact known ref later

theorem step_reference {q : InMemoryTaskQueue} (rep : Represented q) (call : Call) {id : String} {task : TaskRef}
    (found : q.tasks.get? id = some task) : (q.step call).tasks.get? id = some task := by
  by_cases issued : call.Issued q
  · rw [step_issued issued]
    cases silent : call.submits with
    | false =>
      rw [(exec_stepped rep call issued).tasks silent]
      exact found
    | true =>
      have known := Dict.mem_of_get? found
      cases call with
      | submit submitted clock =>
        refine (submit_reference ?_ clock).trans found
        rintro rfl
        exact issued known
      | submitMany batch clock =>
        refine (submitMany_reference ?_ clock).trans found
        intro task member
        obtain ⟨submitted, there, rfl⟩ := List.mem_map.mp member
        rintro rfl
        exact issued.1 submitted there known
      | _ => cases silent
  · rw [step_refused issued]
    exact found

def Everywhere (I : Life → Prop) (q : InMemoryTaskQueue) : Prop := ∀ id l, q.life id = some l → I l

theorem everywhere_init (I : Life → Prop) (maxDepth : Int) : Everywhere I (init maxDepth) := by
  intro id l alive
  cases alive

theorem Everywhere.step {I : Life → Prop} {q : InMemoryTaskQueue} (rep : Represented q) (all : Everywhere I q)
    {call : Call} (born : ∀ l : Life, l.Newborn → I l)
    (kept : ∀ id l l', q.life id = some l → call.Issued q → Effect q call id l l' → I l → I l') :
    Everywhere I (q.step call) := by
  intro id l' alive'
  cases alive : q.life id with
  | none => exact born l' (step_birth rep call alive alive')
  | some l =>
    obtain ⟨m, after, same | ⟨issued, effect⟩⟩ := step_life rep call alive
    · obtain rfl : m = l' := Option.some.inj (after.symm.trans alive')
      rw [same]
      exact all id l alive
    · obtain rfl : m = l' := Option.some.inj (after.symm.trans alive')
      exact kept id l m alive issued effect (all id l alive)

theorem Effect.stable {I : Life → Prop} (stable : Life.Stable I) {q : InMemoryTaskQueue} {call : Call} {id : String}
    {l l' : Life} (issued : call.Issued q) (effect : Effect q call id l l') (holds : I l) : I l' := by
  cases effect.move with
  | settle settles => exact stable.settles l l' holds settles
  | @dispatch _ _ _ _ m _ _ live settles positive =>
    exact stable.dispatch m _ _ (stable.settles l m holds settles) (settles.cancelled.trans live) positive
  | complete made =>
    subst made
    exact stable.complete l _ _ holds issued
  | retry => exact stable.retry l _ _ _ holds
  | cancel => exact stable.cancel l holds
  | expire => exact stable.retry l _ _ _ holds

theorem step_everywhere {I : Life → Prop} (stable : Life.Stable I) {q : InMemoryTaskQueue} (rep : Represented q)
    (all : Everywhere I q) (call : Call) : Everywhere I (q.step call) :=
  all.step rep stable.born fun _ _ _ _ issued effect holds => effect.stable stable issued holds

theorem runCalls_everywhere {I : Life → Prop} (stable : Life.Stable I) (maxDepth : Int) (calls : List Call) :
    Everywhere I (runCalls maxDepth calls) := by
  have both : Represented (runCalls maxDepth calls) ∧ Everywhere I (runCalls maxDepth calls) :=
    Machine.run_invariant (I := fun q => Represented q ∧ Everywhere I q)
      (fun q call held => ⟨step_represented held.1 call, step_everywhere stable held.1 held.2 call⟩)
      ⟨represented_init maxDepth, everywhere_init I maxDepth⟩ calls
  exact both.2

end InMemoryTaskQueue

end TaskRunner
