import TaskRunner.Workers.Slots

/-!
What becomes of the executions that are running when a worker is told to stop. The consumers are cancelled before
anything is waited for, and a consumer that awaits an execution passes its cancellation on.
-/

namespace TaskRunner
open Base

namespace WorkerRuntime

variable {n : ℕ}

/-- None of the executions has ended without its report having been sent, and the executor was not shut down before. -/
def Graceful (executions : Finset ℕ) (s : WorkerRuntime n) : Prop :=
  ∀ e ∈ executions, ((s.executions e).phase.isEnded = true → (s.executions e).sent = true) ∧
    (s.main = .shutDown → (s.executions e).sent = true)

instance (executions : Finset ℕ) (s : WorkerRuntime n) : Decidable (Graceful executions s) :=
  inferInstanceAs (Decidable (∀ e ∈ executions, _ ∧ _))

/-! ### A report on its way stays on its way -/

theorem run_sent {s : WorkerRuntime n} {e : ℕ} (known : e < s.created) (sent : (s.executions e).sent = true)
    (events : List (RuntimeEvent n)) : ((Machine.run step s events).executions e).sent = true := by
  let I : WorkerRuntime n → Prop := fun s => e < s.created ∧ (s.executions e).sent = true
  have whole : I (Machine.run step s events) := by
    refine Machine.run_invariant (I := I) ?_ ⟨known, sent⟩ events
    intro s event given
    obtain ⟨known, sent⟩ := given
    exact ⟨Nat.lt_of_lt_of_le known (created_le s event), (step_advances s event known).sent sent⟩
  exact whole.2

/-! ### A cancellation reaches what a consumer awaits -/

theorem cancel_marked {s : WorkerRuntime n} {e : ℕ} (marked : (s.executions e).cancelling = true) (i : Fin n) :
    ((s.cancel i).executions e).cancelling = true := by
  unfold cancel
  split
  · exact marked
  · split
    · exact marked
    · rw [setExecution_executions]
      split
      · rfl
      · exact marked
  · exact marked

theorem cancel_awaiting {s : WorkerRuntime n} {e : ℕ} {i : Fin n} (awaiting : (s.consumers i).phase = .awaiting e)
    (unended : (s.executions e).phase.isEnded = false) : ((s.cancel i).executions e).cancelling = true := by
  simp [cancel, awaiting, unended]

theorem cancelAll_awaiting {s : WorkerRuntime n} {e : ℕ} {i : Fin n} (awaiting : (s.consumers i).phase = .awaiting e)
    (unended : (s.executions e).phase.isEnded = false) {consumers : List (Fin n)} (listed : i ∈ consumers) :
    ((consumers.foldl cancel s).executions e).cancelling = true := by
  have kept : ∀ (consumers : List (Fin n)) (s : WorkerRuntime n), (s.executions e).cancelling = true →
      ((consumers.foldl cancel s).executions e).cancelling = true := by
    intro consumers
    induction consumers with
    | nil => exact fun _ marked => marked
    | cons j rest ih => exact fun s marked => ih _ (cancel_marked marked j)
  induction consumers generalizing s with
  | nil => cases listed
  | cons j rest ih =>
    by_cases here : i = j
    · subst here
      exact kept rest _ (cancel_awaiting awaiting unended)
    · have later : i ∈ rest := (List.mem_cons.mp listed).resolve_left here
      have same := marked_cancel s j
      refine ih ?_ ?_ later
      · rw [same.phase]
        exact awaiting
      · rw [(same.executions e).1]
        exact unended

/-- How an execution that was marked may go on. -/
def lastStep (s : WorkerRuntime n) (e : ℕ) : RuntimeEvent n :=
  match (s.executions e).phase with
  | .executing => .execute e .cancelled
  | _ => .report e .cancelled

/-- The cancellation ends it, whatever it was at, and its report stays unsent. -/
theorem step_cancelled {s : WorkerRuntime n} {e : ℕ} (known : e < s.created)
    (unended : (s.executions e).phase.isEnded = false) (marked : (s.executions e).cancelling = true) :
    ¬ s.Raises (s.lastStep e) ∧ ((s.step (s.lastStep e)).executions e).phase = .ended .cancelled ∧
      ((s.step (s.lastStep e)).executions e).sent = (s.executions e).sent := by
  unfold lastStep
  cases phase : (s.executions e).phase with
  | executing =>
    refine ⟨fun raises => raises.2.2.2 ⟨marked, rfl⟩, ?_⟩
    simp [step, known, phase]
  | reporting =>
    refine ⟨fun raises => ?_, ?_⟩
    · have free : (s.executions e).cancelling = false := raises.2.2.1
      rw [marked] at free
      cases free
    · simp [step, known, phase, marked]
  | ended ending =>
    rw [phase] at unended
    cases unended

/-- Told to stop, the worker may cancel any execution whose report has not been sent, with nothing having raised. -/
theorem lost_of_unsent {s : WorkerRuntime n} (calm : Calm s) (attended : Attended s) {e : ℕ} (member : e ∈ s.running)
    (unsent : (s.executions e).sent = false) :
    ∃ later, Machine.Along step (fun s event => ¬ s.Raises event) (s.step .stop) later ∧
      ¬ Graceful s.running (Machine.run step s (.stop :: later)) := by
  have known := attended.running e member
  cases unended : (s.executions e).phase.isEnded with
  | true =>
    refine ⟨[], trivial, fun graceful => ?_⟩
    have sent := (graceful e member).1 unended
    change (s.executions e).sent = true at sent
    rw [unsent] at sent
    cases sent
  | false =>
    obtain ⟨i, awaiting⟩ := attended.awaited e known unended
    have drained : (s.step .stop).step .drain =
        { (List.finRange n).foldl cancel (s.step .stop) with main := .awaitingHeartbeat } := by
      simp [step, calm.main]
    have same := marked_cancelAll (s.step .stop) (List.finRange n)
    have marked : (((s.step .stop).step .drain).executions e).cancelling = true := by
      rw [drained]
      exact cancelAll_awaiting (s := s.step .stop) awaiting unended (List.mem_finRange i)
    have phase : (((s.step .stop).step .drain).executions e).phase.isEnded = false := by
      rw [drained]
      show ((List.foldl cancel (s.step .stop) (List.finRange n)).executions e).phase.isEnded = false
      rw [(same.executions e).1]
      exact unended
    have still : (((s.step .stop).step .drain).executions e).sent = false := by
      rw [drained]
      show ((List.foldl cancel (s.step .stop) (List.finRange n)).executions e).sent = false
      rw [(same.executions e).2]
      exact unsent
    have there : e < ((s.step .stop).step .drain).created :=
      Nat.lt_of_lt_of_le known ((created_le s .stop).trans (created_le _ .drain))
    obtain ⟨silent, ended, kept⟩ := step_cancelled there phase marked
    refine ⟨[.drain, lastStep _ e], ⟨id, silent, trivial⟩, fun graceful => ?_⟩
    have sent := (graceful e member).1 (by
      show ((((s.step .stop).step .drain).step (lastStep _ e)).executions e).phase.isEnded = true
      rw [ended]
      rfl)
    change ((((s.step .stop).step .drain).step (lastStep _ e)).executions e).sent = true at sent
    rw [kept, still] at sent
    cases sent

/-- The executions running when a worker is told to stop all come to their reports, however things go on, exactly when
all these reports are on their way already; and where one is not, it may be lost without any call having raised. -/
theorem shutdown_graceful_iff (n : ℕ) (before : List (RuntimeEvent n)) (unstopped : .stop ∉ before) :
    ((∀ later, Graceful (after n before).running (Machine.run step (after n before) (.stop :: later))) ↔
        ∀ e ∈ (after n before).running, ((after n before).executions e).sent = true) ∧
      ((∃ e ∈ (after n before).running, ((after n before).executions e).sent = false) →
        ∃ later, Machine.Along step (fun s event => ¬ s.Raises event) ((after n before).step .stop) later ∧
          ¬ Graceful (after n before).running (Machine.run step (after n before) (.stop :: later))) := by
  have attended := after_attended (n := n) before
  have lost : ∀ e ∈ (after n before).running, ((after n before).executions e).sent = false → _ :=
    fun e member unsent => lost_of_unsent (after_calm unstopped) attended member unsent
  refine ⟨⟨fun graceful e member => ?_, fun sent later e member => ?_⟩, ?_⟩
  · by_contra unsent
    obtain ⟨later, _, ungraceful⟩ := lost e member (Bool.not_eq_true _ ▸ unsent)
    exact ungraceful (graceful later)
  · have kept := run_sent (attended.running e member) (sent e member) (.stop :: later)
    exact ⟨fun _ => kept, fun _ => kept⟩
  · rintro ⟨e, member, unsent⟩
    exact lost e member unsent

/-- A worker stopped while the report of its one task is on its way, and all it does then. -/
def sampleReported : List (RuntimeEvent 1) := [.start 0, .reserve 0 .task, .execute 0 .returned, .send 0]

def sampleFarewell : List (RuntimeEvent 1) :=
  [.drain, .report 0 .cancelled, .discard 0, .resume 0, .heartbeat .returned, .joinHeartbeat, .join]

theorem shutdown_graceful_sample :
    (Machine.run step (after 1 sampleReported) (.stop :: sampleFarewell)).main = .shutDown ∧
      Graceful (after 1 sampleReported).running
        (Machine.run step (after 1 sampleReported) (.stop :: sampleFarewell)) :=
  ⟨by decide, (shutdown_graceful_iff 1 sampleReported (by decide)).1.mpr (by decide) sampleFarewell⟩

/-- A worker stopped while its one task is running. -/
def sampleBusy : List (RuntimeEvent 1) := [.start 0, .reserve 0 .task]

def sampleCut : List (RuntimeEvent 1) :=
  [.drain, .execute 0 .cancelled, .discard 0, .resume 0, .heartbeat .returned, .joinHeartbeat, .join]

theorem shutdown_graceful_fails :
    .stop ∉ sampleBusy ∧ 0 ∈ (after 1 sampleBusy).running ∧
      (Machine.run step (after 1 sampleBusy) (.stop :: sampleCut)).main = .shutDown ∧
      ((Machine.run step (after 1 sampleBusy) (.stop :: sampleCut)).executions 0).phase = .ended .cancelled ∧
      ((Machine.run step (after 1 sampleBusy) (.stop :: sampleCut)).executions 0).sent = false ∧
      ¬ Graceful (after 1 sampleBusy).running (Machine.run step (after 1 sampleBusy) (.stop :: sampleCut)) := by
  decide

end WorkerRuntime

end TaskRunner
