import TaskRunner.Base.Machine

/-!
Logs in which nothing happens before what it needs. Then nothing happens before anything it needs indirectly, and what
needs itself never happens.
-/

namespace TaskRunner.Base

variable {α : Type*} {needs : α → α → Prop}

/-- Each entry of the log comes after all that it needs. -/
def Justified (needs : α → α → Prop) (log : List α) : Prop :=
  ∀ before x later, log = before ++ x :: later → ∀ y, needs x y → y ∈ before

theorem justified_nil : Justified needs [] := by
  intro before x later split
  cases before <;> cases split

theorem Justified.append {log emitted : List α} (justified : Justified needs log)
    (each : ∀ x ∈ emitted, ∀ y, needs x y → y ∈ log) : Justified needs (log ++ emitted) := by
  intro before x later split y needed
  rcases List.append_eq_append_iff.mp split with ⟨rest, rfl, there⟩ | ⟨rest, whole, there⟩
  · have member : x ∈ emitted := by
      rw [there]
      exact List.mem_append_right _ List.mem_cons_self
    exact List.mem_append_left _ (each x member y needed)
  · cases rest with
    | nil =>
      rw [List.append_nil] at whole
      have member : x ∈ emitted := by
        rw [← List.nil_append emitted, ← there]
        exact List.mem_cons_self
      rw [← whole]
      exact each x member y needed
    | cons head rest =>
      obtain ⟨rfl, _⟩ := List.cons.inj there
      exact justified before x rest whole y needed

/-- What an entry needs, directly or through others, comes before it. -/
theorem Justified.closed {log : List α} (justified : Justified needs log) {before later : List α} {x y : α}
    (split : log = before ++ x :: later) (needed : Relation.TransGen needs x y) : y ∈ before := by
  induction needed using Relation.TransGen.head_induction_on generalizing before later with
  | single needed => exact justified before _ later split _ needed
  | @head x z first _ ih =>
    obtain ⟨front, back, rfl⟩ := List.append_of_mem (justified before x later split z first)
    have inner : log = front ++ z :: (back ++ x :: later) := by
      rw [split, List.append_assoc, List.cons_append]
    exact List.mem_append_left _ (ih inner)

theorem Justified.acyclic {log : List α} (justified : Justified needs log) {x : α} (member : x ∈ log) :
    ¬ Relation.TransGen needs x x := by
  intro cycle
  obtain ⟨before, later, split, first⟩ := List.eq_append_cons_of_mem member
  exact first (justified.closed split cycle)

/-- A machine whose steps emit only what has been prepared leaves a justified log. -/
theorem Machine.collect_justified {σ ε : Type*} {step : σ → ε → σ} {emit : σ → ε → List α} {s : σ} {events : List ε}
    (prepared : ∀ before event later, events = before ++ event :: later →
      ∀ x ∈ emit (Machine.run step s before) event, ∀ y, needs x y → y ∈ Machine.collect step emit s before) :
    Justified needs (Machine.collect step emit s events) := by
  induction events using List.reverseRecOn with
  | nil => exact justified_nil
  | append_singleton events event ih =>
    rw [Machine.collect_append]
    refine (ih fun before next later split => prepared before next (later ++ [event]) ?_).append ?_
    · rw [split, List.append_assoc, List.cons_append]
    · intro x member y needed
      rw [Machine.collect, Machine.collect, List.append_nil] at member
      exact prepared events event [] rfl x member y needed

end TaskRunner.Base
