import TaskRunner.Base.Machine

/-!
Failure detection by timeouts. Whoever has been silent for too long when the detector looks is suspected, until it shows
a sign of life again. Only contacts carry a time; other activity clears a suspicion and leaves the time as it is.
-/

namespace TaskRunner.Base.Detector

variable {κ τ : Type*}

/-- What reaches the detector. -/
inductive Sign (κ τ : Type*) where
  | contact (id : κ) (now : τ)
  | active (id : κ)
  | look (now : τ)

/-- What the detector knows of one that has made contact. -/
structure Watch (τ : Type*) where
  last : τ
  suspected : Bool

def Sign.Concerns (id : κ) : Sign κ τ → Prop
  | .contact other _ | .active other => other = id
  | .look _ => False

section Steps

variable [DecidableEq κ] (late : τ → τ → Prop) [DecidableRel late]

def step (watches : κ → Option (Watch τ)) : Sign κ τ → κ → Option (Watch τ)
  | .contact id now => Function.update watches id (some ⟨now, false⟩)
  | .active id => Function.update watches id ((watches id).map fun w => { w with suspected := false })
  | .look now => fun id => (watches id).map fun w => if late w.last now then { w with suspected := true } else w

def after (signs : List (Sign κ τ)) : κ → Option (Watch τ) := Machine.run (step late) (fun _ => none) signs

/-- The time of the last contact. -/
def lastContact (id : κ) (signs : List (Sign κ τ)) : Option τ :=
  signs.foldl (fun last sign =>
    match sign with
    | .contact other now => if other = id then some now else last
    | _ => last) none

/-- A look came too late after the last contact, and there has been no sign of life since. -/
def Overdue (id : κ) (signs : List (Sign κ τ)) : Prop :=
  ∃ before now rest, signs = before ++ .look now :: rest ∧ (∀ sign ∈ rest, ¬ sign.Concerns id) ∧
    ∃ last ∈ lastContact id before, late last now

end Steps

variable [DecidableEq κ]

theorem lastContact_concat (id : κ) (signs : List (Sign κ τ)) (sign : Sign κ τ) :
    lastContact id (signs ++ [sign]) =
      match sign with
      | .contact other now => if other = id then some now else lastContact id signs
      | _ => lastContact id signs := by
  rw [lastContact, List.foldl_append, List.foldl_cons, List.foldl_nil]
  rfl

variable {late : τ → τ → Prop}

/-- The last sign decides, when it is a look that comes too late or concerns the one in question. -/
theorem overdue_concat {id : κ} {signs : List (Sign κ τ)} {sign : Sign κ τ} :
    Overdue late id (signs ++ [sign]) ↔
      ¬ sign.Concerns id ∧ Overdue late id signs ∨ ∃ now, sign = .look now ∧ ∃ last ∈ lastContact id signs, late last now := by
  constructor
  · rintro ⟨before, now, rest, split, quiet, found⟩
    cases rest using List.reverseRecOn with
    | nil =>
      obtain ⟨rfl, same⟩ := List.append_inj' split rfl
      exact Or.inr ⟨now, List.cons.inj same |>.1, found⟩
    | append_singleton rest final =>
      have regrouped : signs ++ [sign] = (before ++ .look now :: rest) ++ [final] := by
        rw [split, List.append_assoc, List.cons_append]
      obtain ⟨rfl, same⟩ := List.append_inj' regrouped rfl
      obtain rfl := (List.cons.inj same).1
      refine Or.inl ⟨quiet sign (List.mem_append_right _ List.mem_cons_self), before, now, rest, rfl, ?_, found⟩
      exact fun other member => quiet other (List.mem_append_left _ member)
  · rintro (⟨silent, before, now, rest, rfl, quiet, found⟩ | ⟨now, rfl, found⟩)
    · refine ⟨before, now, rest ++ [sign], by rw [List.append_assoc, List.cons_append], ?_, found⟩
      intro other member
      rcases List.mem_append.mp member with earlier | last
      · exact quiet other earlier
      · exact List.mem_singleton.mp last ▸ silent
    · exact ⟨signs, now, [], rfl, List.forall_mem_nil _, found⟩

variable [DecidableRel late]

theorem after_concat (signs : List (Sign κ τ)) (sign : Sign κ τ) :
    after late (signs ++ [sign]) = step late (after late signs) sign := by
  rw [after, Machine.run_append]
  rfl

/-- The detector knows of those that have made contact, and when they last did. -/
theorem after_last (signs : List (Sign κ τ)) (id : κ) : (after late signs id).map Watch.last = lastContact id signs := by
  induction signs using List.reverseRecOn with
  | nil => rfl
  | append_singleton signs sign ih =>
    rw [after_concat, lastContact_concat, ← ih]
    cases sign with
    | contact other now =>
      rw [step, Function.update_apply]
      dsimp only
      by_cases same : other = id
      · rw [if_pos same.symm, if_pos same]
        rfl
      · rw [if_neg (Ne.symm same), if_neg same]
    | active other =>
      rw [step, Function.update_apply]
      split
      · rename_i same
        rw [same, Option.map_map]
        rfl
      · rfl
    | look now =>
      rw [step, Option.map_map]
      congr 1
      funext w
      show Watch.last (if late w.last now then { w with suspected := true } else w) = w.last
      split <;> rfl

/-- A sign of life clears a suspicion. -/
theorem step_concerned {id : κ} {sign : Sign κ τ} (concerns : sign.Concerns id) (watches : κ → Option (Watch τ)) :
    ∀ w ∈ step late watches sign id, w.suspected = false := by
  intro w found
  cases sign with
  | contact other now =>
    obtain rfl : other = id := concerns
    rw [step, Function.update_self] at found
    cases found
    rfl
  | active other =>
    obtain rfl : other = id := concerns
    rw [step, Function.update_self] at found
    obtain ⟨_, _, rfl⟩ := Option.map_eq_some_iff.mp found
    rfl
  | look now => exact concerns.elim

theorem step_unconcerned {id : κ} {sign : Sign κ τ} (silent : ¬ sign.Concerns id) (blind : ∀ now, sign ≠ .look now)
    (watches : κ → Option (Watch τ)) : step late watches sign id = watches id := by
  cases sign with
  | contact other now => exact Function.update_of_ne (fun same => silent same.symm) _ _
  | active other => exact Function.update_of_ne (fun same => silent same.symm) _ _
  | look now => exact (blind now rfl).elim

/-- Those are suspected that were overdue at a look and have not shown a sign of life since. -/
theorem suspected_iff (signs : List (Sign κ τ)) (id : κ) :
    (∃ w, after late signs id = some w ∧ w.suspected = true) ↔ Overdue late id signs := by
  induction signs using List.reverseRecOn with
  | nil =>
    refine iff_of_false ?_ ?_
    · rintro ⟨w, found, _⟩
      cases found
    · rintro ⟨before, now, rest, split, _⟩
      exact absurd split (List.append_ne_nil_of_right_ne_nil _ (List.cons_ne_nil _ _)).symm
  | append_singleton signs sign ih =>
    rw [after_concat, overdue_concat, ← ih]
    by_cases looks : ∃ now, sign = .look now
    · obtain ⟨now, rfl⟩ := looks
      have known : (after late signs id).map Watch.last = lastContact id signs := after_last signs id
      rw [step]
      constructor
      · rintro ⟨w, found, suspected⟩
        obtain ⟨watch, there, rfl⟩ := Option.map_eq_some_iff.mp found
        by_cases overdue : late watch.last now
        · refine Or.inr ⟨now, rfl, watch.last, ?_, overdue⟩
          rw [← known, there]
          rfl
        · rw [if_neg overdue] at suspected
          exact Or.inl ⟨fun concerns => concerns, watch, there, suspected⟩
      · rintro (⟨_, watch, there, suspected⟩ | ⟨_, look, last, found, overdue⟩)
        · refine ⟨_, Option.map_eq_some_iff.mpr ⟨watch, there, rfl⟩, ?_⟩
          split
          · rfl
          · exact suspected
        · cases look
          rw [← known] at found
          obtain ⟨watch, there, rfl⟩ := Option.map_eq_some_iff.mp found
          refine ⟨_, Option.map_eq_some_iff.mpr ⟨watch, there, rfl⟩, ?_⟩
          rw [if_pos overdue]
    · have blind : ∀ now, sign ≠ .look now := fun now same => looks ⟨now, same⟩
      by_cases concerns : sign.Concerns id
      · refine iff_of_false ?_ ?_
        · rintro ⟨w, found, suspected⟩
          rw [step_concerned concerns _ w found] at suspected
          cases suspected
        · rintro (⟨silent, _⟩ | ⟨now, look, _⟩)
          · exact silent concerns
          · exact blind now look
      · rw [step_unconcerned concerns blind]
        constructor
        · exact fun suspected => Or.inl ⟨concerns, suspected⟩
        · rintro (⟨_, suspected⟩ | ⟨now, look, _⟩)
          · exact suspected
          · exact (blind now look).elim

end TaskRunner.Base.Detector
