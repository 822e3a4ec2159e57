import TaskRunner.Queue.Filing
import TaskRunner.Queue.Placement

/-!
The depth of the queue against `max_depth`. Only the submit methods look at the limit, so the depth stays
below it as long as no call makes a terminal task active again while the queue is full.
-/

namespace TaskRunner
open Base

namespace InMemoryTaskQueue

/-! ### The depth as a set of ids -/

/-- The ids of the tasks with a status in `P`. -/
def idsWith (q : InMemoryTaskQueue) (P : TaskStatus → Bool) : Finset String :=
  q.tasks.keys.toFinset.filter fun id => ((q.task? id).map fun task => P task.status) = some true

theorem mem_idsWith {q : InMemoryTaskQueue} {P : TaskStatus → Bool} {id : String} :
    id ∈ q.idsWith P ↔ ∃ l, q.life id = some l ∧ P l.task.status = true := by
  rw [idsWith, Finset.mem_filter, List.mem_toFinset, Option.map_eq_some_iff]
  constructor
  · intro given
    obtain ⟨_, task, named, holds⟩ := given
    obtain ⟨l, alive, rfl⟩ := life_of_task? named
    exact ⟨l, alive, holds⟩
  · intro given
    obtain ⟨l, alive, holds⟩ := given
    exact ⟨(life_isSome q id).mp (Option.isSome_of_eq_some alive), l.task, task?_of_life alive, holds⟩

theorem card_idsWith (q : InMemoryTaskQueue) (P : TaskStatus → Bool) :
    (q.tasks.values.filter fun task => P (q.objects task).status).length = (q.idsWith P).card := by
  have same : ∀ id ∈ q.tasks.keys, P (q.objects (q.tasks.getD id 0)).status =
      decide (((q.task? id).map fun task => P task.status) = some true) := by
    intro id member
    obtain ⟨task, found⟩ := Dict.exists_of_mem (d := q.tasks) member
    rw [Dict.getD, task?, found]
    simp
  have finset : q.idsWith P =
      (q.tasks.keys.filter fun id => ((q.task? id).map fun task => P task.status) = some true).toFinset := by
    rw [List.toFinset_filter, idsWith]
    simp
  rw [finset, List.toFinset_card_of_nodup (q.tasks.nodup_keys.filter _), q.tasks.values_eq 0, List.filter_map,
    List.length_map]
  exact congrArg List.length (List.filter_congr same)

def active (q : InMemoryTaskQueue) (id : String) : Bool :=
  match q.life id with
  | none => false
  | some l => !terminal l.task.status

def activeIds (q : InMemoryTaskQueue) : Finset String := q.tasks.keys.toFinset.filter (fun id => q.active id = true)

theorem mem_activeIds {q : InMemoryTaskQueue} {id : String} :
    id ∈ q.activeIds ↔ ∃ l, q.life id = some l ∧ terminal l.task.status = false := by
  rw [activeIds, Finset.mem_filter, List.mem_toFinset, active]
  constructor
  · intro given
    obtain ⟨_, act⟩ := given
    cases alive : q.life id with
    | none => rw [alive] at act; cases act
    | some l =>
      rw [alive] at act
      exact ⟨l, rfl, by simpa using act⟩
  · intro given
    obtain ⟨l, alive, act⟩ := given
    refine ⟨(life_isSome q id).mp (Option.isSome_of_eq_some alive), ?_⟩
    rw [alive]
    simp [act]

theorem depth_eq (q : InMemoryTaskQueue) : q.depth = (q.activeIds.card : Int) := by
  have open_ : q.activeIds = q.idsWith fun status => !terminal status := by
    ext id
    rw [mem_activeIds, mem_idsWith]
    simp
  have split := List.length_eq_length_filter_add (l := q.tasks.values) fun task => terminal (q.objects task).status
  rw [open_, ← card_idsWith, depth]
  omega

theorem depth_le_of_subset {q r : InMemoryTaskQueue} (fewer : r.activeIds ⊆ q.activeIds) : r.depth ≤ q.depth := by
  rw [depth_eq, depth_eq]
  exact Int.ofNat_le.mpr (Finset.card_le_card fewer)

theorem depth_le_succ {q r : InMemoryTaskQueue} (id : String) (fewer : r.activeIds ⊆ insert id q.activeIds) :
    r.depth ≤ q.depth + 1 := by
  rw [depth_eq, depth_eq]
  have bound := (Finset.card_le_card fewer).trans (Finset.card_insert_le id q.activeIds)
  exact_mod_cast bound

/-! ### The calls -/

/-- The call makes no terminal task active while the queue is full: it retries none with budget left, and
serves no worker that accepts one. -/
def RevivesWithRoom (q : InMemoryTaskQueue) : Call → Prop
  | .retry taskId _ _ => ∀ task ∈ q.task? taskId, terminal task.status = true →
      task.attempts + 1 ≤ task.spec.maxRetries → q.depth < q.maxDepth
  | .reserve worker completed _ clock => ∀ id, ∀ task ∈ q.task? id, terminal task.status = true →
      worker.accepts task = true → task.spec.dependsOn ⊆ completed → q.Reservable (clock 0) id task →
      q.depth < q.maxDepth
  | _ => True

section Kept

variable {q r : InMemoryTaskQueue} {call : Call} (stepped : Stepped q call r) (idle : call.submits = false)

include stepped idle

theorem active_kept {id : String} (member : id ∈ r.activeIds)
    (kept : ∀ l l', q.life id = some l → Effect q call id l l' → terminal l'.task.status = false →
      terminal l.task.status = false) : id ∈ q.activeIds := by
  obtain ⟨l', alive', act⟩ := mem_activeIds.mp member
  have known := (life_isSome r id).mp (Option.isSome_of_eq_some alive')
  rw [stepped.tasks idle] at known
  obtain ⟨l, alive⟩ := Option.isSome_iff_exists.mp ((life_isSome q id).mpr known)
  obtain ⟨m, after, effect⟩ := stepped.lives id l alive
  obtain rfl : m = l' := Option.some.inj (after.symm.trans alive')
  exact mem_activeIds.mpr ⟨l, alive, kept l m alive effect act⟩

theorem depth_kept (kept : ∀ id l l', q.life id = some l → Effect q call id l l' → terminal l'.task.status = false →
    terminal l.task.status = false) : r.depth ≤ q.depth :=
  depth_le_of_subset fun id member => active_kept stepped idle member (kept id)

theorem depth_revived (one : String) (kept : ∀ id l l', id ≠ one → q.life id = some l → Effect q call id l l' →
    terminal l'.task.status = false → terminal l.task.status = false) : r.depth ≤ q.depth + 1 := by
  apply depth_le_succ one
  intro id member
  by_cases same : id = one
  · exact Finset.mem_insert.mpr (Or.inl same)
  · exact Finset.mem_insert_of_mem (active_kept stepped idle member fun l l' => kept id l l' same)

end Kept

theorem submit_depth {q : InMemoryTaskQueue} (rep : Represented q) (task : Submission) (new : task.taskId ∉ q.tasks)
    (clock : Clock) (bounded : q.depth ≤ q.maxDepth) :
    (q.submit task.envelope clock).2.depth ≤ (q.submit task.envelope clock).2.maxDepth := by
  by_cases full : q.maxDepth ≤ q.depth
  · rw [submit_full full]
    exact bounded
  · obtain ⟨r, result, admitted⟩ := submit_exact rep (not_le.mp full) task new clock
    rw [result]
    show r.depth ≤ r.maxDepth
    rw [admitted.maxDepth, admitted.depth rep new]
    omega

theorem submitMany_depth {q : InMemoryTaskQueue} (rep : Represented q) (batch : List Submission)
    (new : ∀ task ∈ batch, task.taskId ∉ q.tasks) (distinct : (batch.map Submission.taskId).Nodup) (clock : Clock)
    (bounded : q.depth ≤ q.maxDepth) :
    (q.submitMany (batch.map Submission.envelope) clock).2.depth ≤
      (q.submitMany (batch.map Submission.envelope) clock).2.maxDepth := by
  induction batch generalizing q clock with
  | nil => exact bounded
  | cons task rest ih =>
    have first := submit_depth rep task (new task List.mem_cons_self) clock bounded
    rw [List.map_cons]
    by_cases full : q.maxDepth ≤ q.depth
    · rw [submitMany, submit_full full]
      exact bounded
    · obtain ⟨r, result, admitted⟩ := submit_exact rep (not_le.mp full) task (new task List.mem_cons_self) clock
      rw [submitMany_cons result]
      rw [result] at first
      exact ih admitted.represented (admitted.fresh new distinct) (List.nodup_cons.mp distinct).2 (clock.later 2) first

theorem step_depth {q : InMemoryTaskQueue} (rep : Represented q) (leased : Everywhere Life.Leased q)
    (bounded : q.depth ≤ q.maxDepth) {call : Call} (room : RevivesWithRoom q call) :
    (q.step call).depth ≤ (q.step call).maxDepth := by
  by_cases issued : call.Issued q
  swap
  · rw [step_refused issued]
    exact bounded
  rw [step_issued issued]
  have stepped := exec_stepped rep _ issued
  cases call with
  | submit task clock => exact submit_depth rep task issued clock bounded
  | submitMany batch clock => exact submitMany_depth rep batch issued.1 issued.2 clock bounded
  | complete taskId status error =>
    refine (depth_kept stepped rfl fun id l l' _ effect act => ?_).trans (bounded.trans_eq stepped.maxDepth.symm)
    rw [show l' = _ from effect] at act
    split at act
    · rcases issued with rfl | rfl <;> cases act
    · exact act
  | cancel taskId =>
    refine (depth_kept stepped rfl fun id l l' _ effect act => ?_).trans (bounded.trans_eq stepped.maxDepth.symm)
    rw [show l' = _ from effect] at act
    split at act
    · cases act
    · exact act
  | snapshot now =>
    refine (depth_kept stepped rfl fun id l l' _ effect act => ?_).trans (bounded.trans_eq stepped.maxDepth.symm)
    rw [← Life.Settles.task effect]
    exact act
  | requeueExpiredLeases clock =>
    refine (depth_kept stepped rfl fun id l l' alive effect act => ?_).trans
      (bounded.trans_eq stepped.maxDepth.symm)
    by_cases late : l.Overdue (clock 0)
    · -- a leased task is running, so it was counted already
      rw [((leased id l alive).running late.1).1]
      rfl
    · rw [effect.2 late] at act
      exact act
  | retry taskId reason clock =>
    rw [stepped.maxDepth]
    by_cases revived : ∃ task, q.task? taskId = some task ∧ terminal task.status = true ∧
        task.attempts + 1 ≤ task.spec.maxRetries
    · obtain ⟨task, named, closed, budget⟩ := revived
      have free := room task named closed budget
      have grown := depth_revived stepped rfl taskId fun id l l' different _ effect act => by
        rw [show l' = _ from effect, if_neg (Ne.symm different)] at act
        exact act
      omega
    · refine (depth_kept stepped rfl fun id l l' alive effect act => ?_).trans bounded
      rw [show l' = _ from effect] at act
      split at act
      · rename_i same
        subst same
        obtain ⟨task, found, rfl⟩ := exists_of_life alive
        have named : q.task? taskId = some (q.objects task) := by rw [task?, found]; rfl
        rw [Life.retry_status] at act
        split at act
        · rename_i budget
          exact Bool.eq_false_iff.mpr fun closed => revived ⟨_, named, closed, budget⟩
        · cases act
      · exact act
  | reserve worker completed leaseSeconds clock =>
    rw [stepped.maxDepth]
    cases handed : q.handed (.reserve worker completed leaseSeconds clock) with
    | none =>
      refine (depth_kept stepped rfl fun id l l' _ effect act => ?_).trans bounded
      simp only [Effect, handed, reduceCtorEq, if_false] at effect
      rw [← effect.task]
      exact act
    | some one =>
      have others : ∀ id l l', id ≠ one → q.life id = some l →
          Effect q (.reserve worker completed leaseSeconds clock) id l l' → terminal l'.task.status = false →
          terminal l.task.status = false := by
        intro id l l' different _ effect act
        simp only [Effect, handed, Option.some.injEq, Ne.symm different, if_false] at effect
        rw [← effect.task]
        exact act
      obtain ⟨task, named, accepts, dependencies, reachable⟩ := handed_reservable rep handed
      by_cases closed : terminal task.status = true
      · have free := room one task named closed accepts dependencies reachable
        have grown := depth_revived stepped rfl one others
        omega
      · refine (depth_kept stepped rfl fun id l l' alive effect act => ?_).trans bounded
        by_cases same : id = one
        · subst same
          obtain ⟨ref, found, rfl⟩ := exists_of_life alive
          have known : q.task? id = some (q.objects ref) := by rw [task?, found]; rfl
          obtain rfl : q.objects ref = task := Option.some.inj (known.symm.trans named)
          exact Bool.eq_false_iff.mpr closed
        · exact others id l l' same alive effect act

/-- In a run that makes no terminal task active while the queue is full, the depth never exceeds the limit. -/
theorem depth_bounded_when (maxDepth : Int) (nonneg : 0 ≤ maxDepth) (calls : List Call)
    (met : Machine.Along step RevivesWithRoom (init maxDepth) calls) :
    (runCalls maxDepth calls).depth ≤ maxDepth ∧
      Machine.Along step (fun q call => (q.step call).depth ≤ maxDepth) (init maxDepth) calls := by
  let I : InMemoryTaskQueue → Prop := fun q =>
    Represented q ∧ Everywhere Life.Leased q ∧ q.maxDepth = maxDepth ∧ q.depth ≤ q.maxDepth
  have preserve : ∀ q call, I q → RevivesWithRoom q call → I (q.step call) := by
    intro q call given room
    obtain ⟨rep, leased, limit, bounded⟩ := given
    exact ⟨step_represented rep call, step_everywhere Life.leased_stable rep leased call,
      (step_maxDepth rep call).trans limit, step_depth rep leased bounded room⟩
  have start : I (init maxDepth) :=
    ⟨represented_init maxDepth, everywhere_init _ maxDepth, rfl, by rw [depth_eq]; exact nonneg⟩
  constructor
  · obtain ⟨_, _, limit, bounded⟩ := Machine.run_invariant_along preserve start met
    exact bounded.trans_eq limit
  · refine Machine.along_of_invariant preserve (fun q call held room => ?_) start met
    obtain ⟨_, _, limit, bounded⟩ := preserve q call held room
    exact bounded.trans_eq limit

/-- A task runs to its end and is retried by hand. -/
def rerun : List Call :=
  [.submit (sampleTask "a") (fun _ => 1), .reserve (sampleWorker "w") ∅ 30 (fun _ => 2),
    .complete "a" .succeeded none, .retry "a" "manual retry" (fun _ => 3)]

theorem depth_bounded_rerun : (runCalls 2 rerun).depth ≤ 2 :=
  (depth_bounded_when 2 (by decide) rerun ⟨trivial, fun _ _ _ _ _ _ _ => by decide +kernel, trivial,
    fun _ _ _ _ => by decide +kernel, trivial⟩).1

/-- The slot of a finished task is taken by the next one, and then the finished task is retried. -/
theorem depth_exceeded :
    ¬ (runCalls 1 [.submit (sampleTask "a") (fun _ => 1), .reserve (sampleWorker "w") ∅ 30 (fun _ => 2),
      .complete "a" .succeeded none, .submit (sampleTask "b") (fun _ => 3),
      .retry "a" "manual retry" (fun _ => 4)]).depth ≤ 1 := by
  decide +kernel

end InMemoryTaskQueue

end TaskRunner
