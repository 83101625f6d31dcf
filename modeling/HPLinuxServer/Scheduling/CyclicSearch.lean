import Mathlib.Data.Nat.ModEq

/-!
# Searching in a circle

Positions `0 … size - 1` in a circle are passed from `start` on, one after the other. A
search stops at the first good one, or when the next position would be `start` again.
-/

set_option autoImplicit false

namespace HPLinuxServer.Scheduling

variable {good : Nat → Prop} {size start steps : Nat}

/-- Nothing good is among the first `steps` positions from `start` on. -/
def Passed (good : Nat → Prop) (size start steps : Nat) : Prop :=
  ∀ earlier < steps, ¬ good ((start + earlier) % size)

/-- `found` is the first good position from `start` on. -/
def FirstFrom (good : Nat → Prop) (size start found : Nat) : Prop :=
  ∃ steps < size, found = (start + steps) % size ∧ good found ∧ Passed good size start steps

theorem passed_zero (good : Nat → Prop) (size start : Nat) : Passed good size start 0 :=
  fun _ below => absurd below (Nat.not_lt_zero _)

theorem Passed.succ (passed : Passed good size start steps)
    (bad : ¬ good ((start + steps) % size)) : Passed good size start (steps + 1) := by
  intro earlier below
  rcases Nat.lt_succ_iff_lt_or_eq.mp below with before | rfl
  · exact passed earlier before
  · exact bad

theorem next_position (size start steps : Nat) :
    ((start + steps) % size + 1) % size = (start + (steps + 1)) % size := by
  rw [Nat.mod_add_mod, Nat.add_assoc]

/-- The search is back at the start only after a whole round. -/
theorem position_eq_start_iff (inside : start < size) (positive : 0 < steps)
    (within : steps ≤ size) : (start + steps) % size = start ↔ steps = size := by
  constructor
  · intro back
    have same : start + steps ≡ start + 0 [MOD size] := by
      rw [Nat.ModEq, back, Nat.add_zero, Nat.mod_eq_of_lt inside]
    have turn : size ∣ steps := Nat.modEq_zero_iff_dvd.mp (Nat.ModEq.add_left_cancel' start same)
    exact Nat.le_antisymm within (Nat.le_of_dvd positive turn)
  · rintro rfl
    rw [Nat.add_mod_right, Nat.mod_eq_of_lt inside]

theorem exists_steps (inside : start < size) {position : Nat} (within : position < size) :
    ∃ steps < size, position = (start + steps) % size := by
  rcases Nat.lt_or_ge position start with before | behind
  · refine ⟨size - start + position, by omega, ?_⟩
    have around : start + (size - start + position) = position + size := by omega
    rw [around, Nat.add_mod_right, Nat.mod_eq_of_lt within]
  · refine ⟨position - start, by omega, ?_⟩
    rw [Nat.add_sub_cancel' behind, Nat.mod_eq_of_lt within]

theorem Passed.none_good (passed : Passed good size start size) (inside : start < size) :
    ∀ position < size, ¬ good position := by
  intro position within
  obtain ⟨steps, early, rfl⟩ := exists_steps inside within
  exact passed steps early

namespace FirstFrom

variable {found : Nat}

theorem lt (first : FirstFrom good size start found) : found < size := by
  obtain ⟨steps, early, rfl, -⟩ := first
  exact Nat.mod_lt _ (Nat.zero_lt_of_lt early)

theorem isGood (first : FirstFrom good size start found) : good found := by
  obtain ⟨steps, -, -, isGood, -⟩ := first
  exact isGood

end FirstFrom

end HPLinuxServer.Scheduling
