import Mathlib

/-!
Deterministic machines: a step function, its runs, and the induction rules for them.
Nothing here knows which machine it is.
-/

namespace TaskRunner.Base.Machine

variable {σ τ ε δ α : Type*}

/-- The state after the events, taken in order. -/
def run (step : σ → ε → σ) : σ → List ε → σ
  | s, [] => s
  | s, event :: rest => run step (step s event) rest

/-- `P` holds of each event of the run, in the state the event is taken in. -/
def Along (step : σ → ε → σ) (P : σ → ε → Prop) : σ → List ε → Prop
  | _, [] => True
  | s, event :: rest => P s event ∧ Along step P (step s event) rest

instance decidableAlong (step : σ → ε → σ) (P : σ → ε → Prop) [∀ s event, Decidable (P s event)] :
    ∀ s events, Decidable (Along step P s events)
  | _, [] => isTrue trivial
  | s, event :: rest =>
    haveI := decidableAlong step P (step s event) rest
    inferInstanceAs (Decidable (P s event ∧ Along step P (step s event) rest))

/-- What the events emit along the run, in order. -/
def collect (step : σ → ε → σ) (emit : σ → ε → List α) : σ → List ε → List α
  | _, [] => []
  | s, event :: rest => emit s event ++ collect step emit (step s event) rest

variable {step : σ → ε → σ}

@[simp] theorem run_nil (s : σ) : run step s [] = s := rfl

@[simp] theorem run_cons (s : σ) (event : ε) (rest : List ε) :
    run step s (event :: rest) = run step (step s event) rest := rfl

theorem run_append (s : σ) (first last : List ε) :
    run step s (first ++ last) = run step (run step s first) last := by
  induction first generalizing s with
  | nil => rfl
  | cons event rest ih => exact ih (step s event)

theorem along_append {P : σ → ε → Prop} (s : σ) (first last : List ε) :
    Along step P s (first ++ last) ↔ Along step P s first ∧ Along step P (run step s first) last := by
  induction first generalizing s with
  | nil => simp [Along]
  | cons event rest ih => simp only [List.cons_append, Along, run_cons, ih, and_assoc]

theorem Along.imp {P Q : σ → ε → Prop} (weaker : ∀ s event, P s event → Q s event) {s : σ}
    {events : List ε} (h : Along step P s events) : Along step Q s events := by
  induction events generalizing s with
  | nil => trivial
  | cons event rest ih => exact ⟨weaker s event h.1, ih h.2⟩

theorem Along.and {P Q : σ → ε → Prop} {s : σ} {events : List ε} (left : Along step P s events)
    (right : Along step Q s events) : Along step (fun s event => P s event ∧ Q s event) s events := by
  induction events generalizing s with
  | nil => trivial
  | cons event rest ih => exact ⟨⟨left.1, right.1⟩, ih left.2 right.2⟩

/-! ### Invariants -/

theorem run_invariant {I : σ → Prop} (preserve : ∀ s event, I s → I (step s event)) {s : σ}
    (start : I s) (events : List ε) : I (run step s events) := by
  induction events generalizing s with
  | nil => exact start
  | cons event rest ih => exact ih (preserve s event start)

/-- The same for a property that only steps meeting `C` keep, on runs whose steps all do. -/
theorem run_invariant_along {I : σ → Prop} {C : σ → ε → Prop}
    (preserve : ∀ s event, I s → C s event → I (step s event)) {s : σ} (start : I s)
    {events : List ε} (met : Along step C s events) : I (run step s events) := by
  induction events generalizing s with
  | nil => exact start
  | cons event rest ih => exact ih (preserve s event start met.1) met.2

/-- What an invariant says of each step, on runs whose steps all meet `C`. -/
theorem along_of_invariant {I : σ → Prop} {C P : σ → ε → Prop}
    (preserve : ∀ s event, I s → C s event → I (step s event))
    (each : ∀ s event, I s → C s event → P s event) {s : σ} (start : I s)
    {events : List ε} (met : Along step C s events) : Along step P s events := by
  induction events generalizing s with
  | nil => trivial
  | cons event rest ih =>
    exact ⟨each s event start met.1, ih (preserve s event start met.1) met.2⟩

/-- What holds now and did not at first was begun by some event, and every event since has kept it. -/
theorem run_since {I P : σ → Prop} {B K : σ → ε → Prop} (preserve : ∀ s event, I s → I (step s event))
    (each : ∀ s event, I s → P (step s event) → B s event ∨ P s ∧ K s event) {s : σ} (start : I s)
    (fresh : ¬ P s) (events : List ε) (now : P (run step s events)) :
    ∃ before event later, events = before ++ event :: later ∧ B (run step s before) event ∧
      Along step K (run step s (before ++ [event])) later := by
  induction events using List.reverseRecOn with
  | nil => exact (fresh now).elim
  | append_singleton events event ih =>
    rw [run_append] at now
    rcases each _ event (run_invariant preserve start events) now with begun | ⟨held, kept⟩
    · exact ⟨events, event, [], rfl, begun, trivial⟩
    · obtain ⟨before, first, later, rfl, begun, since⟩ := ih held
      refine ⟨before, first, later ++ [event], by rw [List.append_assoc, List.cons_append], begun, ?_⟩
      refine (along_append _ later [event]).mpr ⟨since, ?_, trivial⟩
      rw [← run_append, List.append_assoc, List.singleton_append]
      exact kept

theorem along_of_forall {C : ε → Prop} {events : List ε} (each : ∀ event ∈ events, C event) (s : σ) :
    Along step (fun _ event => C event) s events := by
  induction events generalizing s with
  | nil => trivial
  | cons event rest ih =>
    exact ⟨each event List.mem_cons_self, ih (fun later member => each later (List.mem_cons_of_mem _ member)) _⟩

theorem along_true (s : σ) (events : List ε) : Along step (fun _ _ => True) s events := by
  induction events generalizing s with
  | nil => trivial
  | cons event rest ih => exact ⟨trivial, ih _⟩

/-- Two properties of steps that agree wherever `I` holds hold along the same runs. -/
theorem along_congr {I : σ → Prop} {P Q : σ → ε → Prop} (preserve : ∀ s event, I s → I (step s event))
    (agree : ∀ s event, I s → (P s event ↔ Q s event)) {s : σ} (start : I s) (events : List ε) :
    Along step P s events ↔ Along step Q s events := by
  induction events generalizing s with
  | nil => exact Iff.rfl
  | cons event rest ih => exact and_congr (agree s event start) (ih (preserve s event start))

/-- When `I` makes the step condition `C` equivalent to keeping `G`, a run keeps `G` throughout
exactly when its steps all meet `C`. -/
theorem along_iff_along {I G : σ → Prop} {C : σ → ε → Prop}
    (preserve : ∀ s event, I s → I (step s event))
    (exact_step : ∀ s event, I s → G s → (G (step s event) ↔ C s event)) {s : σ} (start : I s)
    (good : G s) (events : List ε) :
    Along step (fun t event => G (step t event)) s events ↔ Along step C s events := by
  induction events generalizing s with
  | nil => exact Iff.rfl
  | cons event rest ih =>
    constructor
    · intro given
      obtain ⟨next, tail⟩ := given
      exact ⟨(exact_step s event start good).mp next, (ih (preserve s event start) next).mp tail⟩
    · intro given
      obtain ⟨met, tail⟩ := given
      have next := (exact_step s event start good).mpr met
      exact ⟨next, (ih (preserve s event start) next).mpr tail⟩

/-- A machine that can lower its measure until it is done gets done, in no more events than it measured. -/
theorem run_finishes {I done : σ → Prop} {allowed : ε → Prop} (measure : σ → ℕ)
    (next : ∀ s, I s → ¬ done s → ∃ event, allowed event ∧ I (step s event) ∧ measure (step s event) < measure s) {s : σ}
    (start : I s) : ∃ more : List ε, (∀ event ∈ more, allowed event) ∧ more.length ≤ measure s ∧ done (run step s more) := by
  generalize size : measure s = n
  induction n using Nat.strong_induction_on generalizing s with
  | _ n ih =>
    by_cases ready : done s
    · exact ⟨[], List.forall_mem_nil _, Nat.zero_le _, ready⟩
    · obtain ⟨event, fine, kept, less⟩ := next s start ready
      obtain ⟨more, rest, short, finished⟩ := ih (measure (step s event)) (size ▸ less) kept rfl
      refine ⟨event :: more, ?_, ?_, finished⟩
      · exact fun other member => (List.mem_cons.mp member).elim (fun same => same ▸ fine) (rest other)
      · rw [List.length_cons]
        omega

/-! ### Histories -/

/-- The invariant rule with what the run has emitted so far as a ghost, on runs whose steps all meet `C`. -/
theorem history_invariant_along {emit : σ → ε → List α} {J : List α → σ → Prop} {C : σ → ε → Prop}
    (preserve : ∀ past s event, J past s → C s event → J (past ++ emit s event) (step s event)) {s : σ}
    {past : List α} (start : J past s) {events : List ε} (met : Along step C s events) :
    J (past ++ collect step emit s events) (run step s events) := by
  induction events generalizing s past with
  | nil => simpa [collect] using start
  | cons event rest ih =>
    have later := ih (preserve past s event start met.1) met.2
    simpa only [collect, run_cons, List.append_assoc] using later

theorem history_invariant {emit : σ → ε → List α} {J : List α → σ → Prop}
    (preserve : ∀ past s event, J past s → J (past ++ emit s event) (step s event)) {s : σ}
    {past : List α} (start : J past s) (events : List ε) :
    J (past ++ collect step emit s events) (run step s events) :=
  history_invariant_along (fun past s event holds _ => preserve past s event holds) start (along_true s events)

/-- When each step puts what comes in behind a buffer and takes what goes out from its front, so does the whole run. -/
theorem run_conserves {I : σ → Prop} {C : σ → ε → Prop} {buffer : σ → List α} {ins outs : σ → ε → List α}
    (preserve : ∀ s event, I s → C s event → I (step s event))
    (conserve : ∀ s event, I s → C s event → buffer s ++ ins s event = outs s event ++ buffer (step s event)) {s : σ}
    (start : I s) {events : List ε} (met : Along step C s events) :
    buffer s ++ collect step ins s events = collect step outs s events ++ buffer (run step s events) := by
  induction events generalizing s with
  | nil => simp [collect]
  | cons event rest ih =>
    obtain ⟨here, later⟩ := met
    rw [collect, collect, ← List.append_assoc, conserve s event start here, List.append_assoc,
      ih (preserve s event start here) later, List.append_assoc, run_cons]

/-- The same for a buffer whose order does not matter. -/
theorem run_conserves_perm {I : σ → Prop} {buffer : σ → List α} {ins outs : σ → ε → List α}
    (preserve : ∀ s event, I s → I (step s event))
    (conserve : ∀ s event, I s → (buffer s ++ ins s event).Perm (outs s event ++ buffer (step s event))) {s : σ}
    (start : I s) (events : List ε) :
    (buffer s ++ collect step ins s events).Perm (collect step outs s events ++ buffer (run step s events)) := by
  induction events generalizing s with
  | nil => simp [collect]
  | cons event rest ih =>
    have here := (conserve s event start).append_right (collect step ins (step s event) rest)
    have later := (ih (preserve s event start)).append_left (outs s event)
    rw [List.append_assoc, List.append_assoc] at here
    rw [collect, collect, List.append_assoc, run_cons]
    exact here.trans later

theorem collect_append (emit : σ → ε → List α) (s : σ) (first last : List ε) :
    collect step emit s (first ++ last) = collect step emit s first ++ collect step emit (run step s first) last := by
  induction first generalizing s with
  | nil => rfl
  | cons event rest ih => rw [List.cons_append, collect, collect, ih, run_cons, List.append_assoc]

theorem collect_filterMap {β : Type*} (f : α → Option β) (emit : σ → ε → List α) (s : σ) (events : List ε) :
    (collect step emit s events).filterMap f = collect step (fun s event => (emit s event).filterMap f) s events := by
  induction events generalizing s with
  | nil => rfl
  | cons event rest ih => rw [collect, collect, List.filterMap_append, ih]

theorem mem_collect {emit : σ → ε → List α} {s : σ} {events : List ε} {x : α} (emitted : x ∈ collect step emit s events) :
    ∃ t, ∃ event ∈ events, x ∈ emit t event := by
  induction events generalizing s with
  | nil => cases emitted
  | cons event rest ih =>
    rcases List.mem_append.mp emitted with here | later
    · exact ⟨s, event, List.mem_cons_self, here⟩
    · obtain ⟨t, other, member, there⟩ := ih later
      exact ⟨t, other, List.mem_cons_of_mem _ member, there⟩

/-- Emissions that agree wherever `I` holds are the same along runs from there. -/
theorem collect_congr {I : σ → Prop} {emit emit' : σ → ε → List α} (preserve : ∀ s event, I s → I (step s event))
    (agree : ∀ s event, I s → emit s event = emit' s event) {s : σ} (start : I s) (events : List ε) :
    collect step emit s events = collect step emit' s events := by
  induction events generalizing s with
  | nil => rfl
  | cons event rest ih => rw [collect, collect, agree s event start, ih (preserve s event start)]

/-- What is emitted only together with something else is emitted only when that is. -/
theorem mem_collect_imp {β : Type*} {emit : σ → ε → List α} {emit' : σ → ε → List β} {x : α} {y : β} {s : σ} {events : List ε}
    (imp : ∀ t, ∀ event ∈ events, x ∈ emit t event → y ∈ emit' t event) (emitted : x ∈ collect step emit s events) :
    y ∈ collect step emit' s events := by
  induction events generalizing s with
  | nil => cases emitted
  | cons event rest ih =>
    rcases List.mem_append.mp emitted with here | later
    · exact List.mem_append_left _ (imp s event List.mem_cons_self here)
    · exact List.mem_append_right _ (ih (fun t other member => imp t other (List.mem_cons_of_mem _ member)) later)

theorem collect_sublist {I : σ → Prop} {emit emit' : σ → ε → List α} (preserve : ∀ s event, I s → I (step s event))
    (each : ∀ s event, I s → (emit s event).Sublist (emit' s event)) {s : σ} (start : I s) (events : List ε) :
    (collect step emit s events).Sublist (collect step emit' s events) := by
  induction events generalizing s with
  | nil => exact List.Sublist.refl _
  | cons event rest ih => exact (each s event start).append (ih (preserve s event start))

/-! ### Simulation -/

section Simulation

variable {lower : τ → δ → τ} {a : σ → τ} {calls : σ → ε → List δ}

/-- A machine whose every step is a run of `lower` has runs that are runs of `lower`. -/
theorem run_simulates (simulate : ∀ s event, a (step s event) = run lower (a s) (calls s event))
    (s : σ) (events : List ε) :
    a (run step s events) = run lower (a s) (collect step calls s events) := by
  induction events generalizing s with
  | nil => rfl
  | cons event rest ih => rw [run_cons, ih, collect, run_append, simulate]

/-- What the runs of `lower` emit, step by step. -/
theorem collect_simulates {emit : τ → δ → List α}
    (simulate : ∀ s event, a (step s event) = run lower (a s) (calls s event)) (s : σ) (events : List ε) :
    collect lower emit (a s) (collect step calls s events) =
      collect step (fun s event => collect lower emit (a s) (calls s event)) s events := by
  induction events generalizing s with
  | nil => rfl
  | cons event rest ih => rw [collect, collect, collect_append, ← simulate, ih]

/-- What holds along the runs of `lower` holds along the calls of each step. -/
theorem along_simulates {P : τ → δ → Prop} (simulate : ∀ s event, a (step s event) = run lower (a s) (calls s event))
    (s : σ) (events : List ε) :
    Along lower P (a s) (collect step calls s events) ↔
      Along step (fun s event => Along lower P (a s) (calls s event)) s events := by
  induction events generalizing s with
  | nil => exact Iff.rfl
  | cons event rest ih => rw [collect, along_append, ← simulate, ih, Along]

end Simulation

end TaskRunner.Base.Machine
