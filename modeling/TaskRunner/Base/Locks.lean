import Mathlib

/-!
Mutual exclusion: the lock that serves its callers in the order they came, and the lock of `asyncio`, which keeps
cancelled callers in its queue until they run again. The second refines the first.
-/

namespace TaskRunner.Base

variable {κ : Type*}

/-! ### In the order they came -/

structure FifoMutex (κ : Type*) where
  holder : Option κ := none
  queue : List κ := []

/-- `take` is for a mutex that is free and wanted by nobody. -/
inductive MutexStep (κ : Type*) where
  | take (caller : κ)
  | request (caller : κ)
  | abandon (caller : κ)
  | grant
  | release

namespace FifoMutex

variable [DecidableEq κ]

def step (m : FifoMutex κ) : MutexStep κ → FifoMutex κ
  | .take caller => if m.holder = none ∧ m.queue = [] then { m with holder := some caller } else m
  | .request caller => { m with queue := m.queue ++ [caller] }
  | .abandon caller => { m with queue := m.queue.filter fun other => other ≠ caller }
  | .grant =>
    match m.holder, m.queue with
    | none, caller :: rest => { holder := some caller, queue := rest }
    | _, _ => m
  | .release => { m with holder := none }

/-- `first` waits, and `second` neither holds the mutex nor comes before it. -/
def Ahead (first second : κ) (m : FifoMutex κ) : Prop :=
  m.holder ≠ some second ∧ ∃ before after, m.queue = before ++ first :: after ∧ second ∉ before

/-- As long as it does not give up, a caller is served before those who came later. -/
theorem step_ahead {m : FifoMutex κ} {first second : κ} (ahead : m.Ahead first second) {event : MutexStep κ}
    (stays : event ≠ .abandon first) :
    (m.step event).Ahead first second ∨ (m.step event).holder = some first := by
  obtain ⟨idle, before, after, queue, later⟩ := ahead
  cases event with
  | take caller =>
    left
    rw [step, if_neg]
    · exact ⟨idle, before, after, queue, later⟩
    · rintro ⟨_, nobody⟩
      rw [queue] at nobody
      exact List.append_ne_nil_of_right_ne_nil _ (List.cons_ne_nil _ _) nobody
  | request caller =>
    exact Or.inl ⟨idle, before, after ++ [caller], by simp [step, queue], later⟩
  | abandon caller =>
    have kept : first ≠ caller := by
      rintro rfl
      exact stays rfl
    refine Or.inl ⟨idle, before.filter (fun other => other ≠ caller), after.filter (fun other => other ≠ caller), ?_, ?_⟩
    · simp [step, queue, kept]
    · exact fun member => later (List.mem_filter.mp member).1
  | grant =>
    simp only [step]
    cases held : m.holder with
    | some holder => exact Or.inl ⟨idle, before, after, queue, later⟩
    | none =>
      rw [queue]
      cases before with
      | nil => exact Or.inr rfl
      | cons caller rest =>
        obtain ⟨other, later⟩ := not_or.mp fun member => later (List.mem_cons.mpr member)
        refine Or.inl ⟨?_, rest, after, rfl, later⟩
        rintro ⟨⟩
        exact other rfl
  | release =>
    refine Or.inl ⟨?_, before, after, queue, later⟩
    rintro ⟨⟩

end FifoMutex

/-! ### The lock of `asyncio` -/

/-- The future of a waiting caller. One that was woken and is cancelled before it runs finds both when it does. -/
inductive Waiter where
  | pending | woken | cancelled | dismissed
  deriving DecidableEq

namespace Waiter

def cancel : Waiter → Waiter
  | .pending => .cancelled
  | .woken => .dismissed
  | waiter => waiter

/-- It still wants the lock. -/
def live : Waiter → Bool
  | .pending | .woken => true
  | _ => false

/-- Its future has a result. -/
def called : Waiter → Bool
  | .woken | .dismissed => true
  | _ => false

@[simp] theorem live_cancel (waiter : Waiter) : waiter.cancel.live = false := by cases waiter <;> rfl

@[simp] theorem called_cancel (waiter : Waiter) : waiter.cancel.called = waiter.called := by cases waiter <;> rfl

end Waiter

structure AsyncLock (κ : Type*) where
  locked : Bool := false
  waiters : List (κ × Waiter) := []

namespace AsyncLock

def wakeUpFirst (l : AsyncLock κ) : AsyncLock κ :=
  match l.waiters with
  | (caller, .pending) :: rest => { l with waiters := (caller, .woken) :: rest }
  | _ => l

/-- Whether `acquire` returns at once, and what it leaves: the lock taken, or its caller waiting. -/
def acquire (l : AsyncLock κ) (caller : κ) : Bool × AsyncLock κ :=
  if l.locked = false ∧ ∀ waiter ∈ l.waiters, waiter.2 = .cancelled then (true, { l with locked := true })
  else (false, { l with waiters := l.waiters ++ [(caller, .pending)] })

def release (l : AsyncLock κ) : AsyncLock κ := wakeUpFirst { l with locked := false }

section Callers

variable [DecidableEq κ]

/-- `cancel()` on the task of a waiting caller. -/
def cancel (l : AsyncLock κ) (caller : κ) : AsyncLock κ :=
  { l with waiters := l.waiters.map fun waiter => if waiter.1 = caller then (waiter.1, waiter.2.cancel) else waiter }

def remove (l : AsyncLock κ) (caller : κ) : AsyncLock κ :=
  { l with waiters := l.waiters.filter fun waiter => waiter.1 ≠ caller }

def find (l : AsyncLock κ) (caller : κ) : Option Waiter :=
  (l.waiters.find? fun waiter => waiter.1 = caller).map Prod.snd

/-- A waiting caller runs again: with the lock, or with the `CancelledError` it was sent. It does not before its
future is done. -/
def resume (l : AsyncLock κ) (caller : κ) : Option Bool × AsyncLock κ :=
  match l.find caller with
  | some .woken => (some true, { l.remove caller with locked := true })
  | some .cancelled | some .dismissed =>
    (some false, if l.locked then l.remove caller else (l.remove caller).wakeUpFirst)
  | _ => (none, l)

end Callers

/-- Who still wants the lock, in the order they came. -/
def queue (l : AsyncLock κ) : List κ := (l.waiters.filter fun waiter => waiter.2.live).map Prod.fst

def callers (l : AsyncLock κ) : List κ := l.waiters.map Prod.fst

/-- What the lock's code relies on: only its first waiter is ever called, and that when the lock is free. -/
structure Sound (l : AsyncLock κ) : Prop where
  nodup : l.callers.Nodup
  called : l.locked = false → ∀ waiter ∈ l.waiters.head?, waiter.2 ≠ .pending
  first : ∀ waiter ∈ l.waiters, waiter.2.called = true → l.locked = false ∧ l.waiters.head? = some waiter

/-- The mutex that the lock and the knowledge of its holder make up. -/
def mutex (l : AsyncLock κ) (holder : Option κ) : FifoMutex κ := { holder, queue := l.queue }

/-! ### What its methods do -/

theorem sound_new : Sound ({} : AsyncLock κ) where
  nodup := List.nodup_nil
  called _ waiter first := by cases first
  first waiter member := by cases member

section WakeUp

variable (l : AsyncLock κ)

@[simp] theorem wakeUpFirst_locked : l.wakeUpFirst.locked = l.locked := by
  unfold wakeUpFirst
  split <;> rfl

@[simp] theorem wakeUpFirst_callers : l.wakeUpFirst.callers = l.callers := by
  unfold wakeUpFirst callers
  split
  · rename_i waiting
    rw [waiting]
    rfl
  · rfl

@[simp] theorem wakeUpFirst_queue : l.wakeUpFirst.queue = l.queue := by
  unfold wakeUpFirst queue
  split
  · rename_i waiting
    rw [waiting]
    rfl
  · rfl

/-- Waking the first waiter of a free lock makes up for all that went before. -/
theorem sound_wakeUpFirst {l : AsyncLock κ} (nodup : l.callers.Nodup) (free : l.locked = false)
    (first : ∀ waiter ∈ l.waiters, waiter.2.called = true → l.waiters.head? = some waiter) : Sound l.wakeUpFirst := by
  refine ⟨by rwa [wakeUpFirst_callers], ?_, ?_⟩
  · intro _ waiter head
    unfold wakeUpFirst at head
    split at head
    · cases head
      exact Waiter.noConfusion
    · rename_i unwoken
      intro pending
      obtain ⟨rest, waiting⟩ := List.head?_eq_some_iff.mp head
      exact unwoken waiter.1 rest (by rw [waiting, ← pending])
  · intro waiter member called
    rw [wakeUpFirst_locked]
    refine ⟨free, ?_⟩
    unfold wakeUpFirst at member ⊢
    split at member
    · rename_i caller rest waiting
      rcases List.mem_cons.mp member with rfl | later
      · rfl
      · have head := first waiter (by rw [waiting]; exact List.mem_cons_of_mem _ later) called
        rw [waiting] at head
        cases head
        cases called
    · exact first waiter member called

end WakeUp

theorem callers_append (l : AsyncLock κ) (caller : κ) :
    callers { l with waiters := l.waiters ++ [(caller, .pending)] } = l.callers ++ [caller] := by
  simp [callers]

theorem queue_append (l : AsyncLock κ) (caller : κ) :
    queue { l with waiters := l.waiters ++ [(caller, .pending)] } = l.queue ++ [caller] := by
  simp [queue, Waiter.live]

section Queue

variable [DecidableEq κ] (l : AsyncLock κ) (caller : κ)

theorem queue_cancel :
    (l.cancel caller).queue = l.queue.filter fun other => other ≠ caller := by
  unfold cancel queue
  induction l.waiters with
  | nil => rfl
  | cons waiter rest ih =>
    by_cases same : waiter.1 = caller
    · cases live : waiter.2.live <;> simp_all
    · cases live : waiter.2.live <;> simp_all

theorem queue_remove :
    (l.remove caller).queue = l.queue.filter fun other => other ≠ caller := by
  unfold remove queue
  induction l.waiters with
  | nil => rfl
  | cons waiter rest ih =>
    by_cases same : waiter.1 = caller
    · cases live : waiter.2.live <;> simp_all
    · cases live : waiter.2.live <;> simp_all

@[simp] theorem callers_cancel : (l.cancel caller).callers = l.callers := by
  simp only [cancel, callers, List.map_map]
  apply List.map_congr_left
  intro waiter _
  by_cases same : waiter.1 = caller <;> simp [same]

theorem callers_remove :
    (l.remove caller).callers = l.callers.filter fun other => other ≠ caller := by
  simp only [remove, callers, List.filter_map]
  rfl

end Queue

/-! ### The mutex it implements -/

/-- The lock and who holds it fit together. -/
structure Keeps (l : AsyncLock κ) (holder : Option κ) : Prop extends Sound l where
  locked : l.locked = holder.isSome

section Refinement

variable [DecidableEq κ] {l : AsyncLock κ} {holder : Option κ}

theorem mem_of_find {caller : κ} {waiter : Waiter} (found : l.find caller = some waiter) :
    (caller, waiter) ∈ l.waiters := by
  obtain ⟨pair, there, rfl⟩ := Option.map_eq_some_iff.mp found
  have same : pair.1 = caller := by simpa using List.find?_some there
  rw [← same]
  exact List.mem_of_find?_eq_some there

omit [DecidableEq κ] in
theorem Sound.unique (sound : Sound l) {first second : κ × Waiter} (there : first ∈ l.waiters) (here : second ∈ l.waiters)
    (same : first.1 = second.1) : first = second :=
  List.inj_on_of_nodup_map sound.nodup there here same

omit [DecidableEq κ] in
theorem Sound.unlisted (sound : Sound l) {caller : κ} {waiter : Waiter} (found : (caller, waiter) ∈ l.waiters)
    (dead : waiter.live = false) : caller ∉ l.queue := by
  intro member
  obtain ⟨pair, listed, named⟩ := List.mem_map.mp member
  obtain ⟨there, live⟩ := List.mem_filter.mp listed
  rw [show pair = (caller, waiter) from sound.unique there found named, dead] at live
  cases live

/-- A lock that is free and wanted by nobody is taken at once; any other caller joins the end of the queue. -/
theorem acquire_cases (keeps : Keeps l holder) {caller : κ} (new : caller ∉ l.callers) :
    (∃ l', l.acquire caller = (true, l') ∧ holder = none ∧ Keeps l' (some caller) ∧
      l'.mutex (some caller) = (l.mutex holder).step (.take caller) ∧ l'.callers = l.callers) ∨
    ∃ l', l.acquire caller = (false, l') ∧ Keeps l' holder ∧
      l'.mutex holder = (l.mutex holder).step (.request caller) ∧ l'.callers = l.callers ++ [caller] := by
  unfold acquire
  split
  · rename_i free
    obtain ⟨unlocked, abandoned⟩ := free
    have nobody : l.queue = [] := by
      simp only [queue, List.map_eq_nil_iff, List.filter_eq_nil_iff]
      intro waiter member
      rw [abandoned waiter member]
      exact Bool.false_ne_true
    have idle : holder = none := by
      rw [← Option.not_isSome_iff_eq_none, ← keeps.locked, unlocked]
      exact Bool.false_ne_true
    refine Or.inl ⟨_, rfl, idle, ⟨⟨keeps.nodup, fun locked => Bool.noConfusion locked, ?_⟩, rfl⟩, ?_, rfl⟩
    · intro waiter member called
      rw [abandoned waiter member] at called
      cases called
    · have free : (l.mutex holder).holder = none ∧ (l.mutex holder).queue = [] := ⟨idle, nobody⟩
      rw [FifoMutex.step, if_pos free]
      rfl
  · rename_i busy
    refine Or.inr ⟨_, rfl, ⟨⟨?_, ?_, ?_⟩, keeps.locked⟩, congrArg (FifoMutex.mk holder) (queue_append l caller),
      callers_append l caller⟩
    · rw [callers_append, List.nodup_append]
      refine ⟨keeps.nodup, List.nodup_singleton caller, ?_⟩
      intro other member last one same
      rw [List.mem_singleton] at one
      rw [same, one] at member
      exact new member
    · intro unlocked waiter head
      cases waiting : l.waiters with
      | nil => exact (busy ⟨unlocked, by simp [waiting]⟩).elim
      | cons first rest =>
        rw [waiting] at head
        exact keeps.called unlocked waiter (by rw [waiting]; exact head)
    · intro waiter member called
      rcases List.mem_append.mp member with old | new
      · obtain ⟨unlocked, head⟩ := keeps.first waiter old called
        obtain ⟨rest, waiting⟩ := List.head?_eq_some_iff.mp head
        exact ⟨unlocked, by simp [waiting]⟩
      · obtain rfl := List.mem_singleton.mp new
        cases called

/-- A caller that is cancelled gives up its place at once, whenever it runs. -/
theorem cancel_keeps (keeps : Keeps l holder) (caller : κ) :
    Keeps (l.cancel caller) holder ∧ (l.cancel caller).mutex holder = (l.mutex holder).step (.abandon caller) := by
  have head : (l.cancel caller).waiters.head? =
      l.waiters.head?.map fun waiter => if waiter.1 = caller then (waiter.1, waiter.2.cancel) else waiter :=
    List.head?_map
  refine ⟨⟨⟨by rw [callers_cancel]; exact keeps.nodup, ?_, ?_⟩, keeps.locked⟩, ?_⟩
  · intro unlocked waiter first
    rw [head] at first
    obtain ⟨before, there, rfl⟩ := Option.map_eq_some_iff.mp first
    have awake := keeps.called unlocked before there
    split
    · intro pending
      cases waiting : before.2 with
      | pending => exact awake waiting
      | woken | cancelled | dismissed =>
        rw [waiting] at pending
        cases pending
    · exact awake
  · intro waiter member called
    obtain ⟨before, there, rfl⟩ := List.mem_map.mp member
    have was : before.2.called = true := by
      split at called
      · rwa [Waiter.called_cancel] at called
      · exact called
    obtain ⟨unlocked, first⟩ := keeps.first before there was
    exact ⟨unlocked, by rw [head, first]; rfl⟩
  · simp only [mutex, queue_cancel, FifoMutex.step]

/-- A caller that runs again without the lock leaves the others as they are, and calls the next one if the lock is free. -/
theorem dropped_keeps (keeps : Keeps l holder) {caller : κ} {waiter : Waiter} (found : (caller, waiter) ∈ l.waiters)
    (dead : waiter.live = false) :
    Keeps (if l.locked then l.remove caller else (l.remove caller).wakeUpFirst) holder ∧
      mutex (if l.locked then l.remove caller else (l.remove caller).wakeUpFirst) holder = l.mutex holder := by
  have queue : (l.remove caller).queue = l.queue := by
    rw [queue_remove]
    refine List.filter_eq_self.mpr fun other member => decide_eq_true ?_
    rintro rfl
    exact keeps.unlisted found dead member
  have nodup : (l.remove caller).callers.Nodup := by
    rw [callers_remove]
    exact keeps.nodup.filter _
  split
  · rename_i locked
    refine ⟨⟨⟨nodup, ?_, ?_⟩, keeps.locked⟩, congrArg (FifoMutex.mk holder) queue⟩
    · intro unlocked
      exact (Bool.false_ne_true (unlocked.symm.trans locked)).elim
    · intro other member called
      have unlocked := (keeps.first other (List.mem_filter.mp member).1 called).1
      exact (Bool.false_ne_true (unlocked.symm.trans locked)).elim
  · rename_i unlocked
    have free : l.locked = false := Bool.eq_false_iff.mpr unlocked
    refine ⟨⟨sound_wakeUpFirst nodup free ?_, ?_⟩, ?_⟩
    · intro other member called
      obtain ⟨there, kept⟩ := List.mem_filter.mp member
      obtain ⟨rest, waiting⟩ := List.head?_eq_some_iff.mp (keeps.first other there called).2
      simp only [remove, waiting, List.filter_cons, kept, if_true, List.head?_cons]
    · rw [wakeUpFirst_locked]
      exact keeps.locked
    · simp only [mutex, wakeUpFirst_queue, queue]

/-- A caller that was woken and runs again has come to the front of the queue, and the lock is free for it. -/
theorem taken_keeps (keeps : Keeps l holder) {caller : κ} (found : (caller, .woken) ∈ l.waiters) :
    holder = none ∧ Keeps { l.remove caller with locked := true } (some caller) ∧
      mutex { l.remove caller with locked := true } (some caller) = (l.mutex holder).step .grant := by
  obtain ⟨unlocked, first⟩ := keeps.first _ found rfl
  obtain ⟨rest, waiting⟩ := List.head?_eq_some_iff.mp first
  have idle : holder = none := by
    rw [← Option.not_isSome_iff_eq_none, ← keeps.locked, unlocked]
    exact Bool.false_ne_true
  have nodup := keeps.nodup
  rw [callers, waiting, List.map_cons, List.nodup_cons] at nodup
  obtain ⟨absent, nodup⟩ := nodup
  have left : (l.remove caller).waiters = rest := by
    simp only [remove, waiting]
    rw [List.filter_cons_of_neg (by simp), List.filter_eq_self]
    intro other member
    refine decide_eq_true ?_
    intro same
    exact absent (List.mem_map.mpr ⟨other, member, same⟩)
  refine ⟨idle, ⟨⟨?_, fun locked => Bool.noConfusion locked, ?_⟩, rfl⟩, ?_⟩
  · rw [callers, left]
    exact nodup
  · intro other member called
    rw [left] at member
    have again := (keeps.first other (by rw [waiting]; exact List.mem_cons_of_mem _ member) called).2
    obtain rfl : (caller, Waiter.woken) = other := Option.some.inj (first.symm.trans again)
    exact (absent (List.mem_map_of_mem member)).elim
  · have front : l.queue = caller :: queue { l.remove caller with locked := true } := by
      simp only [queue, left, waiting]
      rfl
    simp only [mutex, FifoMutex.step, idle, front]

theorem release_keeps {caller : κ} (keeps : Keeps l (some caller)) :
    Keeps l.release none ∧ l.release.mutex none = (l.mutex (some caller)).step .release := by
  refine ⟨⟨sound_wakeUpFirst keeps.nodup rfl ?_, wakeUpFirst_locked _⟩, ?_⟩
  · intro waiter member called
    have locked := keeps.locked
    rw [(keeps.first waiter member called).1] at locked
    cases locked
  · have queue := wakeUpFirst_queue { l with locked := false }
    exact congrArg (FifoMutex.mk none) queue

/-- What a caller that goes on finds: nothing yet, the lock, or that it was cancelled. -/
theorem resume_cases (keeps : Keeps l holder) (caller : κ) :
    (l.resume caller = (none, l) ∧ ∀ waiter, (caller, waiter) ∈ l.waiters → waiter = .pending) ∨
    (∃ l', l.resume caller = (some true, l') ∧ (caller, Waiter.woken) ∈ l.waiters ∧ holder = none ∧
      Keeps l' (some caller) ∧ l'.mutex (some caller) = (l.mutex holder).step .grant ∧
      l'.callers = l.callers.filter fun other => other ≠ caller) ∨
    ∃ l', l.resume caller = (some false, l') ∧ caller ∈ l.callers ∧ caller ∉ l.queue ∧ Keeps l' holder ∧
      l'.mutex holder = l.mutex holder ∧ l'.callers = l.callers.filter fun other => other ≠ caller := by
  have callers : ∀ (next : AsyncLock κ), (if l.locked then l.remove caller else next).callers =
      (if l.locked then (l.remove caller).callers else next.callers) := by
    intro next
    split <;> rfl
  have dropped : ∀ waiter, l.find caller = some waiter → waiter.live = false →
      ∃ l', (some false, if l.locked then l.remove caller else (l.remove caller).wakeUpFirst) = (some false, l') ∧
        caller ∈ l.callers ∧ caller ∉ l.queue ∧ Keeps l' holder ∧ l'.mutex holder = l.mutex holder ∧
        l'.callers = l.callers.filter fun other => other ≠ caller := by
    intro waiter found dead
    have there := mem_of_find found
    obtain ⟨kept, same⟩ := dropped_keeps keeps there dead
    refine ⟨_, rfl, List.mem_map_of_mem there, keeps.unlisted there dead, kept, same, ?_⟩
    rw [callers, wakeUpFirst_callers, ite_self, callers_remove]
  unfold resume
  cases found : l.find caller with
  | none =>
    refine Or.inl ⟨rfl, fun waiter there => ?_⟩
    have absent := List.find?_eq_none.mp (Option.map_eq_none_iff.mp found) _ there
    simp at absent
  | some waiter =>
    have there := mem_of_find found
    cases waiter with
    | pending =>
      refine Or.inl ⟨rfl, fun other here => ?_⟩
      exact congrArg Prod.snd (keeps.unique here there rfl)
    | woken =>
      obtain ⟨idle, kept, granted⟩ := taken_keeps keeps there
      exact Or.inr (Or.inl ⟨_, rfl, there, idle, kept, granted, callers_remove l caller⟩)
    | cancelled => exact Or.inr (Or.inr (dropped _ found rfl))
    | dismissed => exact Or.inr (Or.inr (dropped _ found rfl))

end Refinement

end AsyncLock

end TaskRunner.Base
