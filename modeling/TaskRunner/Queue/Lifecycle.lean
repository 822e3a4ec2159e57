import TaskRunner.Shared.Models

/-!
The life of one task, with nothing of the queue around it: its envelope, how many entries wait for
it, and whether it is leased, dead-lettered or marked cancelled. This is what the queue is for, seen
from one task; `Effect.lean` shows that every call acts on each task by the moves named here.
-/

namespace TaskRunner

structure Life where
  task : TaskEnvelope
  ready : ℕ
  delayed : ℕ
  leased : Bool
  dead : Bool
  cancelled : Bool

namespace Life

def waiting (l : Life) : ℕ := l.ready + l.delayed

/-- How often the task is placed: its waiting entries and its lease. -/
def placed (l : Life) : ℕ := l.waiting + if l.leased then 1 else 0

/-- One more failure would still be retried. -/
def retryable (l : Life) : Prop := l.task.attempts + 1 ≤ l.task.spec.maxRetries

instance (l : Life) : Decidable l.retryable := inferInstanceAs (Decidable (_ ≤ _))

def dispatch (l : Life) (workerId : String) (deadline : ℚ) : Life :=
  { l with
    task := { l.task with
      status := .running, assignedWorker := some workerId, leaseDeadline := some deadline }
    ready := l.ready - 1
    leased := true }

def complete (l : Life) (status : TaskStatus) (error : Option String) : Life :=
  { l with task := { l.task with status, lastError := error, leaseDeadline := none }, leased := false }

/-- A failed attempt: given up on, or waiting again until `due`. -/
def retry (l : Life) (reason : String) (start now : ℚ) : Life :=
  let t := { l.task with
    attempts := l.task.attempts + 1, lastError := some reason, assignedWorker := none, leaseDeadline := none }
  let due := start + t.spec.retryBackoffSeconds * t.attempts
  if l.retryable then
    { l with
      task := { t with status := .retrying, availableAt := due }
      ready := if due > now then l.ready else l.ready + 1
      delayed := if due > now then l.delayed + 1 else l.delayed
      leased := false }
  else { l with task := { t with status := .deadLettered }, leased := false, dead := true }

def cancel (l : Life) : Life :=
  { l with task := { l.task with status := .cancelled }, leased := false, cancelled := true }

@[simp] theorem dispatch_placed {l : Life} (waiting : 0 < l.ready) (workerId : String) (deadline : ℚ) :
    (l.dispatch workerId deadline).placed = l.waiting := by
  simp only [placed, Life.waiting, dispatch, if_true]
  omega

@[simp] theorem dispatch_waiting {l : Life} (waiting : 0 < l.ready) (workerId : String) (deadline : ℚ) :
    (l.dispatch workerId deadline).waiting + 1 = l.waiting := by
  simp only [Life.waiting, dispatch]
  omega

@[simp] theorem complete_waiting (l : Life) (status : TaskStatus) (error : Option String) :
    (l.complete status error).waiting = l.waiting := rfl

@[simp] theorem cancel_waiting (l : Life) : l.cancel.waiting = l.waiting := rfl

theorem retry_waiting (l : Life) (reason : String) (start now : ℚ) :
    (l.retry reason start now).waiting = l.waiting + if l.retryable then 1 else 0 := by
  unfold retry
  dsimp only
  split
  · simp only [Life.waiting]
    split <;> omega
  · rfl

theorem retry_ready {l : Life} (spent : ¬ l.retryable) (reason : String) (start now : ℚ) :
    (l.retry reason start now).ready = l.ready := by
  unfold retry
  dsimp only
  rw [if_neg spent]

@[simp] theorem retry_leased (l : Life) (reason : String) (start now : ℚ) :
    (l.retry reason start now).leased = false := by
  unfold retry
  dsimp only
  split <;> rfl

@[simp] theorem retry_cancelled (l : Life) (reason : String) (start now : ℚ) :
    (l.retry reason start now).cancelled = l.cancelled := by
  unfold retry
  dsimp only
  split <;> rfl

theorem retry_status (l : Life) (reason : String) (start now : ℚ) :
    (l.retry reason start now).task.status = if l.retryable then .retrying else .deadLettered := by
  unfold retry
  dsimp only
  split <;> rfl

@[simp] theorem retry_attempts (l : Life) (reason : String) (start now : ℚ) :
    (l.retry reason start now).task.attempts = l.task.attempts + 1 := by
  unfold retry
  dsimp only
  split <;> rfl

@[simp] theorem retry_task_spec (l : Life) (reason : String) (start now : ℚ) :
    (l.retry reason start now).task.spec = l.task.spec := by
  unfold retry
  dsimp only
  split <;> rfl

theorem placed_of_waiting {l : Life} (free : l.leased = false) : l.placed = l.waiting := by
  simp only [placed, free, Bool.false_eq_true, if_false, Nat.add_zero]

theorem waiting_le_placed (l : Life) : l.waiting ≤ l.placed := Nat.le_add_right _ _

theorem retry_placed (l : Life) (reason : String) (start now : ℚ) :
    (l.retry reason start now).placed = l.waiting + if l.retryable then 1 else 0 := by
  rw [placed_of_waiting (retry_leased l reason start now), retry_waiting]

/-- A task as it enters the queue. -/
structure Newborn (l : Life) : Prop where
  attempts : l.task.attempts = 0
  status : l.task.status = .queued
  budget : 0 ≤ l.task.spec.maxRetries
  unassigned : l.task.assignedWorker = none ∧ l.task.leaseDeadline = none
  waiting : l.waiting = 1
  free : l.leased = false ∧ l.dead = false ∧ l.cancelled = false

/-- What promoting due entries and clearing out cancelled ones may do: entries move from delayed to
ready, and only entries of a task that is cancelled or dead-lettered are dropped. -/
structure Settles (l m : Life) : Prop where
  task : m.task = l.task
  leased : m.leased = l.leased
  dead : m.dead = l.dead
  cancelled : m.cancelled = l.cancelled
  delayed : m.delayed ≤ l.delayed
  waiting : m.waiting ≤ l.waiting
  kept : l.cancelled = false → l.task.status ≠ .cancelled → l.task.status ≠ .deadLettered →
    m.waiting = l.waiting
  ready : l.task.status = .cancelled ∨ l.task.status = .deadLettered → m.ready ≤ l.ready

theorem Settles.refl (l : Life) : l.Settles l :=
  ⟨rfl, rfl, rfl, rfl, le_refl _, le_refl _, fun _ _ _ => rfl, fun _ => le_refl _⟩

theorem Settles.trans {l m n : Life} (first : l.Settles m) (last : m.Settles n) : l.Settles n where
  task := last.task.trans first.task
  leased := last.leased.trans first.leased
  dead := last.dead.trans first.dead
  cancelled := last.cancelled.trans first.cancelled
  delayed := last.delayed.trans first.delayed
  waiting := last.waiting.trans first.waiting
  kept live open₁ open₂ := by
    have here := last.kept (first.cancelled.trans live) (by rw [first.task]; exact open₁)
      (by rw [first.task]; exact open₂)
    exact here.trans (first.kept live open₁ open₂)
  ready closed := (last.ready (by rw [first.task]; exact closed)).trans (first.ready closed)

theorem Settles.promote {l : Life} {ready delayed : ℕ} (more : ready = l.ready + 1) (less : delayed + 1 = l.delayed)
    (live : l.task.status ≠ .cancelled ∧ l.task.status ≠ .deadLettered) :
    l.Settles { l with ready, delayed } where
  task := rfl
  leased := rfl
  dead := rfl
  cancelled := rfl
  delayed := by dsimp only; omega
  waiting := by simp only [Life.waiting]; omega
  kept _ _ _ := by simp only [Life.waiting]; omega
  ready closed := (closed.elim live.1 live.2).elim

theorem Settles.drop {l : Life} {delayed : ℕ} (less : delayed ≤ l.delayed)
    (closed : l.task.status = .cancelled ∨ l.task.status = .deadLettered) : l.Settles { l with delayed } where
  task := rfl
  leased := rfl
  dead := rfl
  cancelled := rfl
  delayed := less
  waiting := by simp only [Life.waiting]; omega
  kept _ open₁ open₂ := (closed.elim open₁ open₂).elim
  ready _ := le_refl _

theorem Settles.clear {l : Life} {ready : ℕ} (less : ready ≤ l.ready) (marked : l.cancelled = true) :
    l.Settles { l with ready } where
  task := rfl
  leased := rfl
  dead := rfl
  cancelled := rfl
  delayed := le_refl _
  waiting := by simp only [Life.waiting]; omega
  kept live := by rw [marked] at live; cases live
  ready _ := less

theorem Settles.placed {l m : Life} (settles : l.Settles m) : m.placed ≤ l.placed := by
  have fewer := settles.waiting
  simp only [Life.placed, settles.leased]
  omega

/-! ### Invariants -/

/-- A property of lives that no call breaks. -/
structure Stable (I : Life → Prop) : Prop where
  born : ∀ l : Life, l.Newborn → I l
  settles : ∀ l m : Life, I l → l.Settles m → I m
  dispatch : ∀ (l : Life) workerId deadline, I l → l.cancelled = false → 0 < l.ready →
    I (l.dispatch workerId deadline)
  complete : ∀ (l : Life) status error, I l → status = .succeeded ∨ status = .cancelled →
    I (l.complete status error)
  retry : ∀ (l : Life) reason start now, I l → I (l.retry reason start now)
  cancel : ∀ l : Life, I l → I l.cancel

/-- A leased task is running, unless it was cancelled it can be recovered, and a lease never outlives a
cancellation. -/
structure Leased (l : Life) : Prop where
  running : l.leased = true → l.task.status = .running ∧ l.cancelled = false ∧
    (∃ workerId, l.task.assignedWorker = some workerId) ∧ ∃ deadline, l.task.leaseDeadline = some deadline

theorem leased_stable : Stable Leased where
  born l newborn := ⟨fun leased => by rw [newborn.free.1] at leased; cases leased⟩
  settles l m held settled := ⟨by rw [settled.leased, settled.task, settled.cancelled]; exact held.running⟩
  dispatch l workerId deadline _ live _ := ⟨fun _ => ⟨rfl, live, ⟨workerId, rfl⟩, ⟨deadline, rfl⟩⟩⟩
  complete _ _ _ _ _ := ⟨fun leased => by cases leased⟩
  retry l reason start now _ := ⟨fun leased => by rw [retry_leased] at leased; cases leased⟩
  cancel _ _ := ⟨fun leased => by cases leased⟩

end Life

end TaskRunner
