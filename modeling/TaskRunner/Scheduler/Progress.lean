import TaskRunner.Scheduler.Rows

/-!
Nothing of the scheduler waits for ever: a coroutine ends after a bounded number of sections, and the steps that are its
own finish every operation in progress, after which the store shows every task.
-/

namespace TaskRunner
open Base InMemoryTaskQueue

/-- How many sections a coroutine can still run. -/
def Frame.work : Frame → ℕ
  | .idle => 0
  | .storeTask _ => 1
  | .storeTasks tasks => tasks.length + 1
  | .settleReport _ => 3
  | .noteCompleted .. => 2
  | .storeReport .. => 1

/-- How many steps it takes at most to answer a call and to store the task it answers with. -/
def ReservePhase.work : ReservePhase → ℕ
  | .scheduled => 4
  | .waiting .. => 3
  | .returned _ => 2

/-- The steps that no client and no timer has to start. -/
def Event.own : Event → Bool
  | .proceed _ | .reserveEnters .. | .reservePass .. | .reserveReturns _ | .leaseReaperResumes _ => true
  | _ => false

namespace System

/-- The steps that answering the calls takes. -/
def callsWork (calls : Dict ℕ ReserveCall) : ℕ := (calls.values.map fun c => c.phase.work).sum

/-- How many steps finish what is in progress. -/
def work (s : System) : ℕ := s.frame.work + callsWork s.calls + (s.reaped.map fun refs => refs.length + 2).sum

theorem idle_of_work {s : System} (none : s.frame.work = 0) : s.idle = true := by
  unfold idle
  cases frame : s.frame with
  | idle => rfl
  | _ =>
    rw [frame] at none
    cases none

/-- A section brings its coroutine nearer to its end. -/
theorem proceed_work {s : System} (busy : ¬ s.idle = true) (clock : Clock) :
    (s.proceed clock).frame.work < s.frame.work := by
  unfold proceed
  cases frame : s.frame with
  | idle => exact (busy (by rw [idle, frame])).elim
  | storeTask => exact Nat.zero_lt_one
  | storeReport => exact Nat.zero_lt_one
  | noteCompleted => exact Nat.one_lt_two
  | storeTasks tasks =>
    cases tasks with
    | nil => exact Nat.zero_lt_one
    | cons task rest =>
      dsimp only
      split
      · exact Nat.lt_succ_self _
      · exact Nat.zero_lt_succ _
  | settleReport result =>
    dsimp only
    split
    · exact Nat.zero_lt_succ 2
    · show (if result.status = .succeeded then _ else _ : Frame).work < 3
      split
      · exact Nat.lt_succ_self 2
      · exact Nat.one_lt_succ_succ 1

/-- A coroutine ends within the sections it can still run, whatever the clock reads. -/
theorem run_proceed_idle {s : System} {clocks : List Clock} (enough : s.frame.work ≤ clocks.length) :
    (Machine.run step s (clocks.map .proceed)).idle = true := by
  induction clocks generalizing s with
  | nil => exact idle_of_work (Nat.le_zero.mp enough)
  | cons clock rest ih =>
    rw [List.map_cons, Machine.run_cons]
    apply ih
    change (s.proceed clock).frame.work ≤ rest.length
    by_cases free : s.idle = true
    · have none : (s.proceed clock).frame.work = 0 := by
        rw [proceed, frame_of_idle free]
        show s.frame.work = 0
        rw [frame_of_idle free]
        rfl
      omega
    · have less := proceed_work free clock
      rw [List.length_cons] at enough
      omega

/-- A pass at its deadline is the last of its call. -/
theorem passCall_returns {s : System} (rep : Represented s.engine.queue) (call : ℕ) (c : ReserveCall) (shared : Bool)
    (deadline : ℚ) (clock : Clock) :
    ∃ task, (s.passCall call c shared deadline clock deadline).calls = s.calls.set call { c with phase := .returned task } ∧
      (s.passCall call c shared deadline clock deadline).frame = s.frame := by
  rcases reserve_spec rep (s.engine.workerObjects c.worker) (s.completedFor shared) s.engine.config.leaseSeconds
      clock with ⟨r, result, _⟩ | ⟨r, id, task, result, _⟩
  · unfold passCall
    rw [result]
    refine ⟨none, ?_, rfl⟩
    dsimp only
    rw [if_pos (Or.inr (by rw [sub_self, max_self]))]
  · unfold passCall
    rw [result]
    exact ⟨some task, rfl, rfl⟩

/-- A call that is taken on has fewer steps to go. -/
theorem callsWork_set {calls : Dict ℕ ReserveCall} {call : ℕ} {c : ReserveCall} (found : calls.get? call = some c)
    (c' : ReserveCall) (nearer : c'.phase.work < c.phase.work) : callsWork (calls.set call c') < callsWork calls := by
  have moved := Dict.sum_values_set (fun c : ReserveCall => c.phase.work) calls call c'
  rw [found, Option.map_some, Option.getD_some] at moved
  unfold callsWork
  omega

theorem callsWork_erase {calls : Dict ℕ ReserveCall} {call : ℕ} {c : ReserveCall} (found : calls.get? call = some c) :
    callsWork (calls.erase call) + c.phase.work = callsWork calls :=
  Dict.sum_values_erase (fun c : ReserveCall => c.phase.work) calls found

/-- Where an operation is in progress the scheduler has a step of its own that brings it nearer to its end. -/
theorem step_works {s : System} (rep : Represented s.engine.queue) (unsettled : ¬ s.Quiescent) :
    ∃ event : Event, event.own = true ∧ (s.step event).work < s.work := by
  by_cases free : s.idle = true
  · cases calls : s.calls.keys with
    | nil =>
      cases reaped : s.reaped with
      | nil => exact (unsettled ⟨free, calls, reaped⟩).elim
      | cons refs rest =>
        refine ⟨.leaseReaperResumes 0, rfl, ?_⟩
        simp only [step, whenIdle, free, if_true, reaped, List.getElem?_cons_zero, List.eraseIdx_cons_zero, work,
          Frame.work, List.map_cons, List.sum_cons, frame_of_idle free]
        omega
    | cons call rest =>
      obtain ⟨c, found⟩ := Dict.exists_of_mem (show call ∈ s.calls by
        rw [Dict.mem_iff, ← Dict.mem_keys_iff, calls]
        exact List.mem_cons_self)
      obtain ⟨worker, timeout, phase⟩ := c
      cases phase with
      | scheduled =>
        refine ⟨.reserveEnters call 0, rfl, ?_⟩
        have nearer := callsWork_set found
          { worker, timeout, phase := .waiting (decide (s.engine.completedTasks ≠ ∅)) (0 + timeout) } (Nat.lt_succ_self 3)
        simp only [step, found, work]
        omega
      | waiting shared deadline =>
        refine ⟨.reservePass call (fun _ => 0) deadline, rfl, ?_⟩
        obtain ⟨task, after, frame⟩ := passCall_returns rep call
          { worker, timeout, phase := .waiting shared deadline } shared deadline fun _ => 0
        have nearer := callsWork_set found { worker, timeout, phase := .returned task } (Nat.lt_succ_self 2)
        simp only [step, found, work, after, frame, passCall_reaped]
        omega
      | returned task =>
        refine ⟨.reserveReturns call, rfl, ?_⟩
        have answered : callsWork (s.calls.erase call) + 2 = callsWork s.calls := callsWork_erase found
        cases task with
        | none =>
          simp only [step, whenIdle, free, if_true, found, work]
          omega
        | some task =>
          simp only [step, whenIdle, free, if_true, found, work, Frame.work, frame_of_idle free]
          omega
  · refine ⟨.proceed fun _ => 0, rfl, ?_⟩
    have less := proceed_work free fun _ => 0
    show (s.proceed _).work < _
    simp only [work, (proceed_calls s _).1, proceed_reaped]
    omega

/-- From every reachable state the coroutine that runs ends within a bounded number of sections whatever the clock reads,
and a bounded number of steps of the scheduler's own finish all that is in progress; then, if no write has raised, the
row of every task that was let in shows it as it is. -/
theorem operations_finish (config : Settings) (events : List Event) :
    (∀ clocks : List Clock, (after config events).frame.work ≤ clocks.length →
      (after config (events ++ clocks.map .proceed)).idle = true) ∧
    ∃ more : List Event, (∀ event ∈ more, event.own = true) ∧ more.length ≤ (after config events).work ∧
      Quiescent (after config (events ++ more)) ∧
      (Machine.Along step NoStoreError (init config) (events ++ more) → ∀ id ∈ accepted config events, ∃ task row,
        (after config (events ++ more)).engine.queue.task? id = some task ∧
        (after config (events ++ more)).engine.store.tasks.get? id = some row ∧ SQLiteStore.Shows row task) := by
  constructor
  · intro clocks enough
    unfold after at enough ⊢
    rw [Machine.run_append]
    exact run_proceed_idle enough
  · have next : ∀ s : System, Represented s.engine.queue → ¬ s.Quiescent →
        ∃ event : Event, event.own = true ∧ Represented (s.step event).engine.queue ∧ (s.step event).work < s.work := by
      intro s rep unsettled
      obtain ⟨event, fine, less⟩ := step_works rep unsettled
      exact ⟨event, fine, represented_step rep event, less⟩
    obtain ⟨more, own, short, quiet⟩ := Machine.run_finishes work next (after_represented config events)
    have settled : Quiescent (after config (events ++ more)) := by
      unfold after at quiet ⊢
      rwa [Machine.run_append]
    refine ⟨more, own, short, settled, fun fine id member => ?_⟩
    have mirrored := after_mirrored fine
    have member : id ∈ accepted config (events ++ more) := by
      rw [accepted, Machine.collect_append]
      exact List.mem_append_left _ member
    obtain ⟨ref, found⟩ := Dict.exists_of_mem (mirrored.known id member)
    rcases mirrored.shown id ref found with owed | ⟨row, stored, shows⟩ | ⟨_, unlisted⟩
    · exact (settled.settled ref owed).elim
    · exact ⟨_, row, by rw [task?, found]; rfl, stored, shows⟩
    · exact (unlisted member).elim

end System

end TaskRunner
