import TaskRunner.Workers.Ipc
import TaskRunner.Workers.Manager

/-!
The counters of a worker, and what its executions write of them to the shared block. The block is closed only behind the
last execution, so its end is left out.
-/

namespace TaskRunner
open Base

/-- A worker with its counters. `begun` are the executions whose coroutine has started. -/
structure Metered (n : ℕ) where
  runtime : WorkerRuntime n
  begun : Finset ℕ := ∅
  completed : ℕ := 0
  failed : ℕ := 0
  ipc : IPCChannels := .init

/-- `failed` tells of a report that returns whether its result had an error. -/
inductive MeteredEvent (n : ℕ) where
  | begins (execution : ℕ)
  | runtime (event : RuntimeEvent n) (failed : Bool)

namespace Metered

variable {n : ℕ}

def init (n : ℕ) : Metered n where
  runtime := .init n

/-- The counters are written; an execution that cannot write them ends with the exception. -/
def write (m : Metered n) (e : ℕ) : Metered n :=
  match m.ipc.writeSharedCounters m.runtime.running.card m.completed m.failed with
  | .ok ipc => { m with ipc }
  | .error _ =>
    { m with runtime := m.runtime.setExecution e { m.runtime.executions e with phase := .ended .raised } }

/-- The end of `_execute_and_report`, behind the report. -/
def count (m : Metered n) (e : ℕ) (failed : Bool) : Metered n :=
  (if failed then { m with failed := m.failed + 1 } else { m with completed := m.completed + 1 }).write e

/-- An execution comes to no end of its own before it has begun. -/
def Admits (m : Metered n) : RuntimeEvent n → Prop
  | .execute e ending => e ∈ m.begun ∨ ending = .cancelled
  | _ => True

instance (m : Metered n) : (event : RuntimeEvent n) → Decidable (m.Admits event)
  | .execute e ending => inferInstanceAs (Decidable (e ∈ m.begun ∨ ending = .cancelled))
  | .stop | .start _ | .reserve _ _ | .wake _ | .send _ | .report _ _ | .recordRaises _ | .discard _ | .resume _
  | .heartbeat _ | .drain | .joinHeartbeat | .join | .gather => isTrue trivial

/-- The execution whose report returns in the step. -/
def returns (m : Metered n) : RuntimeEvent n → Option ℕ
  | .report e .returned =>
    if (m.runtime.executions e).phase ≠ .ended .returned ∧
        ((m.runtime.step (.report e .returned)).executions e).phase = .ended .returned
    then some e else none
  | _ => none

def step (m : Metered n) : MeteredEvent n → Metered n
  | .begins e =>
    if e < m.runtime.created ∧ (m.runtime.executions e).phase = .executing ∧
        (m.runtime.executions e).cancelling = false ∧ e ∉ m.begun
    then ({ m with begun := insert e m.begun } : Metered n).write e else m
  | .runtime event failed =>
    if m.Admits event then
      match m.returns event with
      | none => { m with runtime := m.runtime.step event }
      | some e => ({ m with runtime := m.runtime.step event } : Metered n).count e failed
    else m

def after (n : ℕ) (events : List (MeteredEvent n)) : Metered n := Machine.run step (init n) events

end Metered

/-! ### What the counters show -/

namespace WorkerRuntime

variable {n : ℕ}

/-- The executions that have reported and come to their end. -/
def reportedIds (s : WorkerRuntime n) : Finset ℕ :=
  (Finset.range s.created).filter fun e => (s.executions e).phase = .ended .returned

/-- What has not ended is listed as running. -/
def Listed (s : WorkerRuntime n) : Prop := ∀ e < s.created, (s.executions e).phase.isEnded = false → e ∈ s.running

theorem Steps.running {s t : WorkerRuntime n} {event : RuntimeEvent n} (steps : Steps s event t)
    (other : ∀ e, event ≠ .discard e) : t.running = s.running ∨ ∃ i, t = s.spawn i := by
  cases steps with
  | @spawns i => exact Or.inr ⟨i, rfl⟩
  | @discards e => exact (other e rfl).elim
  | drains => exact Or.inl (marked_cancelAll s (List.finRange n)).running
  | joins begun marked => exact Or.inl marked.running
  | _ => exact Or.inl rfl

theorem step_listed {s : WorkerRuntime n} (listed : Listed s) (event : RuntimeEvent n) : Listed (s.step event) := by
  intro e known unended
  by_cases dropping : ∃ f, event = .discard f
  · obtain ⟨f, rfl⟩ := dropping
    simp only [step] at known unended ⊢
    split at known
    · rename_i ended
      rw [if_pos ended] at unended ⊢
      have different : e ≠ f := by
        rintro rfl
        change (s.executions e).phase.isEnded = false at unended
        rw [ended] at unended
        cases unended
      exact Finset.mem_erase.mpr ⟨different, listed e known unended⟩
    · rename_i running
      rw [if_neg running] at unended ⊢
      exact listed e known unended
  · have other : ∀ f, event ≠ .discard f := fun f same => dropping ⟨f, same⟩
    rcases (step_steps s event).running other with same | ⟨i, spawned⟩
    · rw [same]
      rcases step_created s event with ⟨created, _⟩ | ⟨i, _, spawned⟩
      · rw [created] at known
        exact listed e known ((step_advances s event known).unended unended)
      · have more : s.created ∈ s.running := by
          rw [← same, spawned]
          exact Finset.mem_insert_self _ _
        rw [spawned] at known
        rcases Nat.lt_succ_iff_lt_or_eq.mp known with old | rfl
        · exact listed e old ((step_advances s event old).unended unended)
        · exact more
    · rw [spawned] at known ⊢
      rcases Nat.lt_succ_iff_lt_or_eq.mp known with old | rfl
      · exact Finset.mem_insert_of_mem (listed e old ((step_advances s event old).unended unended))
      · exact Finset.mem_insert_self _ _

/-- Only the event that names an execution changes where it stands. -/
theorem Steps.own {s t : WorkerRuntime n} {event : RuntimeEvent n} (steps : Steps s event t) {f : ℕ}
    (known : f < s.created) (changed : (t.executions f).phase ≠ (s.executions f).phase) :
    (∃ ending, event = .execute f ending ∧
      (t.executions f).phase = if ending = .returned then .reporting else .ended ending) ∨
    (∃ ending, event = .report f ending ∧
      ((t.executions f).phase = .ended ending ∨ (t.executions f).phase = .ended .cancelled)) ∨
    event = .recordRaises f ∧ (t.executions f).phase = .ended .raised := by
  cases steps with
  | spawns =>
    refine (changed ?_).elim
    show (Function.update s.executions s.created {} f).phase = _
    rw [Function.update_of_ne (Nat.ne_of_lt known)]
  | @executed e ending here executing =>
    rw [setExecution_executions] at changed ⊢
    split at changed
    · rename_i same
      rw [if_pos same, same]
      exact Or.inl ⟨ending, rfl, rfl⟩
    · exact (changed rfl).elim
  | @sends e reporting =>
    rw [setExecution_executions] at changed
    split at changed
    · rename_i same
      rw [same] at changed
      exact (changed rfl).elim
    · exact (changed rfl).elim
  | @interrupted e ending reporting =>
    rw [setExecution_executions] at changed ⊢
    split at changed
    · rename_i same
      rw [if_pos same, same]
      exact Or.inr (Or.inl ⟨ending, rfl, Or.inr rfl⟩)
    · exact (changed rfl).elim
  | @reported e ending here reporting =>
    rw [setExecution_executions] at changed ⊢
    split at changed
    · rename_i same
      rw [if_pos same, same]
      exact Or.inr (Or.inl ⟨ending, rfl, Or.inl rfl⟩)
    · exact (changed rfl).elim
  | @recordRaises e here reporting =>
    rw [setExecution_executions] at changed ⊢
    split at changed
    · rename_i same
      rw [if_pos same, same]
      exact Or.inr (Or.inr ⟨rfl, rfl⟩)
    · exact (changed rfl).elim
  | drains => exact (changed ((marked_cancelAll s (List.finRange n)).executions f).1).elim
  | joins begun marked => exact (changed (marked.executions f).1).elim
  | _ => exact (changed rfl).elim

theorem reported_of {s : WorkerRuntime n} {event : RuntimeEvent n} {f : ℕ} (known : f < s.created)
    (before : (s.executions f).phase ≠ .ended .returned)
    (ended : ((s.step event).executions f).phase = .ended .returned) : event = .report f .returned := by
  rcases (step_steps s event).own known (by rw [ended]; exact Ne.symm before) with
    ⟨ending, rfl, phase⟩ | ⟨ending, rfl, same | cancelled⟩ | ⟨rfl, raised⟩
  · rw [ended] at phase
    split at phase
    · cases phase
    · rename_i other
      exact (other (ExecutionPhase.ended.inj phase).symm).elim
  · rw [ended] at same
    rw [ExecutionPhase.ended.inj same]
  · rw [ended] at cancelled
    cases cancelled
  · rw [ended] at raised
    cases raised

theorem executed_of {s : WorkerRuntime n} {event : RuntimeEvent n} {f : ℕ} (known : f < s.created)
    (before : (s.executions f).phase ≠ .reporting) (reporting : ((s.step event).executions f).phase = .reporting) :
    event = .execute f .returned := by
  rcases (step_steps s event).own known (by rw [reporting]; exact Ne.symm before) with
    ⟨ending, rfl, phase⟩ | ⟨ending, rfl, ended | cancelled⟩ | ⟨rfl, raised⟩
  · rw [reporting] at phase
    split at phase
    · rename_i returned
      rw [returned]
    · cases phase
  · rw [reporting] at ended
    cases ended
  · rw [reporting] at cancelled
    cases cancelled
  · rw [reporting] at raised
    cases raised

/-- A new execution is not further than its beginning. -/
theorem known_of_phase {s : WorkerRuntime n} {event : RuntimeEvent n} {f : ℕ} (known : f < (s.step event).created)
    (further : ((s.step event).executions f).phase ≠ .executing) : f < s.created := by
  rcases step_created s event with ⟨same, _⟩ | ⟨i, _, spawned⟩
  · rwa [same] at known
  · rw [spawned] at known further
    rcases Nat.lt_succ_iff_lt_or_eq.mp known with old | rfl
    · exact old
    · refine (further ?_).elim
      show (Function.update s.executions s.created {} s.created).phase = _
      rw [Function.update_self]

theorem mem_reportedIds {s : WorkerRuntime n} {e : ℕ} :
    e ∈ s.reportedIds ↔ e < s.created ∧ (s.executions e).phase = .ended .returned := by
  simp [reportedIds]

theorem card_reportedIds_le (s : WorkerRuntime n) : s.reportedIds.card ≤ s.created := by
  have within := Finset.card_filter_le (Finset.range s.created) fun e => (s.executions e).phase = .ended .returned
  rwa [Finset.card_range] at within

theorem Attended.card_running_le {s : WorkerRuntime n} (attended : Attended s) : s.running.card ≤ s.created := by
  have within := Finset.card_le_card (s := s.running) (t := Finset.range s.created) fun e member =>
    Finset.mem_range.mpr (attended.running e member)
  rwa [Finset.card_range] at within

/-- A report returns from an execution that awaits it. -/
theorem awaits_report {s : WorkerRuntime n} {e : ℕ} (before : (s.executions e).phase ≠ .ended .returned)
    (ended : ((s.step (.report e .returned)).executions e).phase = .ended .returned) :
    e < s.created ∧ (s.executions e).phase = .reporting := by
  by_contra unready
  have fixed : s.step (.report e .returned) = s := by rw [step, if_neg unready]
  rw [fixed] at ended
  exact before ended

theorem mem_reportedIds_step {s : WorkerRuntime n} {event : RuntimeEvent n} {e : ℕ} :
    e ∈ (s.step event).reportedIds ↔
      e ∈ s.reportedIds ∨ event = .report e .returned ∧ (s.executions e).phase ≠ .ended .returned ∧
        ((s.step event).executions e).phase = .ended .returned := by
  rw [mem_reportedIds, mem_reportedIds]
  constructor
  · intro reported
    have known := known_of_phase reported.1 (by rw [reported.2]; exact ExecutionPhase.noConfusion)
    by_cases before : (s.executions e).phase = .ended .returned
    · exact Or.inl ⟨known, before⟩
    · exact Or.inr ⟨reported_of known before reported.2, before, reported.2⟩
  · rintro (⟨known, before⟩ | ⟨rfl, before, ended⟩)
    · exact ⟨Nat.lt_of_lt_of_le known (created_le s event), (step_advances s event known).ended before⟩
    · exact ⟨Nat.lt_of_lt_of_le (awaits_report before ended).1 (created_le s _), ended⟩

end WorkerRuntime

namespace Metered

variable {n : ℕ}

/-- Every execution that reports has begun, and there are no more executions than steps. -/
structure Sound (m : Metered n) (steps : ℕ) : Prop where
  attended : m.runtime.Attended
  listed : m.runtime.Listed
  created : m.runtime.created ≤ steps
  begun : ∀ e < m.runtime.created, (m.runtime.executions e).phase = .reporting → e ∈ m.begun

/-- The counters shown are those of the worker. -/
structure Shows (m : Metered n) (steps : ℕ) : Prop extends Sound m steps where
  counted : m.completed + m.failed = m.runtime.reportedIds.card
  shown : ∃ running, m.ipc.readSharedCounters = [running, m.completed, m.failed] ∧ (running = 0 ↔ m.begun = ∅)
  rest : m.ipc.buf.drop 24 = List.replicate 40 0

theorem shows_init : Shows (init n) 0 where
  attended := WorkerRuntime.attended_init
  listed e known := absurd known (Nat.not_lt_zero e)
  created := le_refl 0
  begun e known := absurd known (Nat.not_lt_zero e)
  counted := rfl
  shown := ⟨0, IPCChannels.init_read, iff_of_true rfl rfl⟩
  rest := List.drop_replicate ..

/-- Counters no greater than the number of executions are written and shown. -/
theorem write_shows {m : Metered n} {steps : ℕ} (sound : Sound m steps) (room : steps < 2 ^ 64)
    (counted : m.completed + m.failed = m.runtime.reportedIds.card) {e : ℕ} (running : e ∈ m.runtime.running)
    (begun : e ∈ m.begun) (rest : m.ipc.buf.drop 24 = List.replicate 40 0) : Shows (m.write e) steps := by
  have gauge : m.runtime.running.card ≤ steps := sound.attended.card_running_le.trans sound.created
  have reported : m.completed + m.failed ≤ steps := counted ▸ m.runtime.card_reportedIds_le.trans sound.created
  obtain ⟨ipc, written, read, same⟩ := m.ipc.write_read (Nat.lt_of_le_of_lt gauge room)
    (Nat.lt_of_le_of_lt (Nat.le_of_add_right_le reported) room)
    (Nat.lt_of_le_of_lt (Nat.le_of_add_left_le reported) room)
  rw [write, written]
  refine { sound with counted, shown := ⟨m.runtime.running.card, read, ?_⟩, rest := same.trans rest }
  exact iff_of_false (Finset.card_ne_zero_of_mem running) (Finset.ne_empty_of_mem begun)

theorem begins_shows {m : Metered n} {steps : ℕ} (shows' : Shows m steps) (room : steps < 2 ^ 64) (e : ℕ) :
    Shows (m.step (.begins e)) steps := by
  rw [step]
  split
  · rename_i ready
    obtain ⟨known, executing, _, _⟩ := ready
    have sound : Sound { m with begun := insert e m.begun } steps :=
      { shows' with begun := fun f known reporting => Finset.mem_insert_of_mem (shows'.begun f known reporting) }
    have running := shows'.listed e known (by rw [executing]; rfl)
    exact write_shows sound room shows'.counted running (Finset.mem_insert_self e _) shows'.rest
  · exact shows'

theorem step_sound {m : Metered n} {steps : ℕ} (sound : Sound m steps) {event : RuntimeEvent n}
    (admits : m.Admits event) : Sound { m with runtime := m.runtime.step event } (steps + 1) where
  attended := WorkerRuntime.step_attended sound.attended event
  listed := WorkerRuntime.step_listed sound.listed event
  created := by
    rcases WorkerRuntime.step_created m.runtime event with ⟨same, _⟩ | ⟨i, _, spawned⟩
    · exact same.le.trans (Nat.le_succ_of_le sound.created)
    · show (m.runtime.step event).created ≤ steps + 1
      rw [spawned]
      exact Nat.succ_le_succ sound.created
  begun e known reporting := by
    have old := WorkerRuntime.known_of_phase known (by rw [reporting]; exact fun same => by cases same)
    by_cases before : (m.runtime.executions e).phase = .reporting
    · exact sound.begun e old before
    · obtain rfl := WorkerRuntime.executed_of old before reporting
      rcases admits with begun | cancelled
      · exact begun
      · cases cancelled

theorem returns_iff {m : Metered n} {event : RuntimeEvent n} {e : ℕ} :
    m.returns event = some e ↔ event = .report e .returned ∧ (m.runtime.executions e).phase ≠ .ended .returned ∧
      ((m.runtime.step event).executions e).phase = .ended .returned := by
  unfold returns
  split
  · rename_i f
    constructor
    · intro returned
      split at returned
      · rename_i turned
        cases returned
        exact ⟨rfl, turned⟩
      · cases returned
    · rintro ⟨same, turned⟩
      cases same
      rw [if_pos turned]
  · rename_i other
    exact iff_of_false (fun none => by cases none) fun returned => other e returned.1

/-- A step in which a report returns makes the number of reports one more, and its execution is still listed. -/
theorem returned_reports {m : Metered n} {steps : ℕ} (shows' : Shows m steps) {event : RuntimeEvent n} {e : ℕ}
    (returned : m.returns event = some e) :
    m.completed + m.failed + 1 = (m.runtime.step event).reportedIds.card ∧ e ∈ (m.runtime.step event).running ∧
      e ∈ m.begun := by
  obtain ⟨rfl, before, ended⟩ := returns_iff.mp returned
  obtain ⟨known, reporting⟩ := WorkerRuntime.awaits_report before ended
  have more : (m.runtime.step (.report e .returned)).reportedIds = insert e m.runtime.reportedIds := by
    ext f
    rw [WorkerRuntime.mem_reportedIds_step, ← returns_iff, returned, Finset.mem_insert, Option.some_inj, or_comm,
      eq_comm]
  have same : (m.runtime.step (.report e .returned)).running = m.runtime.running := by
    simp only [WorkerRuntime.step]
    split_ifs <;> rfl
  refine ⟨?_, ?_, shows'.begun e known reporting⟩
  · rw [more, Finset.card_insert_of_notMem fun member => before (WorkerRuntime.mem_reportedIds.mp member).2,
      shows'.counted]
  · rw [same]
    exact shows'.listed e known (by rw [reporting]; rfl)

theorem runtime_shows {m : Metered n} {steps : ℕ} (shows' : Shows m steps) (room : steps + 1 < 2 ^ 64)
    (event : RuntimeEvent n) (failed : Bool) : Shows (m.step (.runtime event failed)) (steps + 1) := by
  rw [step]
  split
  · rename_i admits
    have sound := step_sound shows'.toSound admits
    cases returned : m.returns event with
    | none =>
      have same : (m.runtime.step event).reportedIds = m.runtime.reportedIds := by
        ext e
        rw [WorkerRuntime.mem_reportedIds_step, ← returns_iff, returned]
        simp
      exact { sound with
        counted := shows'.counted.trans (congrArg Finset.card same.symm)
        shown := shows'.shown
        rest := shows'.rest }
    | some e =>
      obtain ⟨counted, running, begun⟩ := returned_reports shows' returned
      dsimp only
      unfold count
      split
      · have sound' : Sound { m with runtime := m.runtime.step event, failed := m.failed + 1 } (steps + 1) :=
          { sound with }
        exact write_shows sound' room counted running begun shows'.rest
      · have sound' : Sound { m with runtime := m.runtime.step event, completed := m.completed + 1 } (steps + 1) :=
          { sound with }
        exact write_shows sound' room ((Nat.add_right_comm ..).trans counted) running begun shows'.rest
  · exact { shows' with created := Nat.le_succ_of_le shows'.created }

theorem after_shows (events : List (MeteredEvent n)) (room : events.length < 2 ^ 64) :
    Shows (after n events) events.length := by
  induction events using List.reverseRecOn with
  | nil => exact shows_init
  | append_singleton earlier event ih =>
    rw [List.length_append, List.length_singleton] at room ⊢
    have before := ih (Nat.lt_of_succ_lt room)
    rw [after, Machine.run_append, Machine.run_cons, Machine.run_nil]
    cases event with
    | begins e =>
      have shows' := begins_shows before (Nat.lt_of_succ_lt room) e
      exact { shows' with created := Nat.le_succ_of_le shows'.created }
    | runtime event failed => exact runtime_shows before room event failed

/-- Whatever the worker has gone through, its counters add up to the executions that have reported and come to their
end, and the shared block shows them. Its gauge is zero exactly until the first execution begins: an execution that
finishes still counts itself. -/
theorem counters_exact (n : ℕ) (events : List (MeteredEvent n)) (room : events.length < 2 ^ 64) :
    (after n events).completed + (after n events).failed = (after n events).runtime.reportedIds.card ∧
      (∃ running, (after n events).ipc.readSharedCounters =
          [running, (after n events).completed, (after n events).failed] ∧
        (running = 0 ↔ (after n events).begun = ∅)) ∧
      (after n events).ipc.buf.drop 24 = List.replicate 40 0 := by
  have shows' := after_shows events room
  exact ⟨shows'.counted, shows'.shown, shows'.rest⟩

/-- Two executions report, one of them a failure, and nothing runs any more. -/
def sampleCounts : List (MeteredEvent 4) :=
  [.runtime (.start 0) false, .runtime (.start 1) false, .runtime (.reserve 0 .task) false,
    .runtime (.reserve 1 .task) false, .begins 0, .begins 1, .runtime (.execute 0 .returned) false,
    .runtime (.execute 1 .returned) false, .runtime (.send 0) false, .runtime (.send 1) false,
    .runtime (.report 0 .returned) true, .runtime (.discard 0) false, .runtime (.report 1 .returned) false,
    .runtime (.discard 1) false]

theorem counters_sample :
    (after 4 sampleCounts).ipc.readSharedCounters = [1, 1, 1] ∧ (after 4 sampleCounts).runtime.running = ∅ ∧
      (after 4 sampleCounts).completed + (after 4 sampleCounts).failed =
        (after 4 sampleCounts).runtime.reportedIds.card := by
  have short : sampleCounts.length < 2 ^ 64 := by decide
  refine ⟨by decide +kernel, by decide +kernel, ?_⟩
  exact (counters_exact 4 sampleCounts short).1

end Metered

end TaskRunner
