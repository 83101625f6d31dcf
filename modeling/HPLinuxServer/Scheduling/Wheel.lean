import Mathlib.Data.Nat.ModEq

/-!
# Hashed timing wheels

A wheel of `slots` slots visits one slot a tick. An event that is due at the
`remaining`-th visit from now waits in the slot of that visit, for as many
earlier visits of that slot as there are full turns before it.
-/

set_option autoImplicit false

namespace HPLinuxServer.Scheduling

variable {slots cursor remaining : Nat}

/-- The slot of the `remaining`-th visit, the first one being at `cursor`. -/
def position (slots cursor remaining : Nat) : Nat := (cursor + (remaining - 1)) % slots

/-- How often that slot is visited before. -/
def laps (slots remaining : Nat) : Nat := (remaining - 1) / slots

theorem position_lt (positive : 0 < slots) (cursor remaining : Nat) :
    position slots cursor remaining < slots := Nat.mod_lt _ positive

theorem position_advance (later : 2 ≤ remaining) :
    position slots ((cursor + 1) % slots) (remaining - 1) = position slots cursor remaining := by
  have regroup : cursor + 1 + (remaining - 1 - 1) = cursor + (remaining - 1) := by omega
  unfold position
  rw [Nat.mod_add_mod, regroup]

/-- The slot at the cursor holds the events a whole number of turns away. -/
theorem position_eq_cursor_iff (inside : cursor < slots) :
    position slots cursor remaining = cursor ↔ slots ∣ remaining - 1 := by
  unfold position
  constructor
  · intro here
    have same : cursor + (remaining - 1) ≡ cursor + 0 [MOD slots] := by
      rw [Nat.ModEq, here, Nat.add_zero, Nat.mod_eq_of_lt inside]
    exact (Nat.modEq_zero_iff_dvd).mp (Nat.ModEq.add_left_cancel' cursor same)
  · rintro ⟨turns, whole⟩
    rw [whole, Nat.add_mul_mod_self_left, Nat.mod_eq_of_lt inside]

theorem position_one (inside : cursor < slots) : position slots cursor 1 = cursor :=
  (position_eq_cursor_iff inside).mpr (Nat.dvd_zero slots)

theorem laps_one : laps slots 1 = 0 := Nat.zero_div slots

theorem laps_visited (inside : cursor < slots) (later : 2 ≤ remaining)
    (here : position slots cursor remaining = cursor) :
    laps slots remaining = laps slots (remaining - 1) + 1 := by
  obtain ⟨turns, whole⟩ := (position_eq_cursor_iff inside).mp here
  have positive : 0 < slots := by omega
  obtain ⟨fewer, rfl⟩ : ∃ fewer, turns = fewer + 1 := by
    cases turns with
    | zero => omega
    | succ fewer => exact ⟨fewer, rfl⟩
  have before : remaining - 1 - 1 = slots * fewer + (slots - 1) := by
    rw [whole, Nat.mul_add]
    omega
  unfold laps
  rw [before, whole, Nat.mul_div_cancel_left _ positive, Nat.mul_add_div positive,
    Nat.div_eq_of_lt (by omega), Nat.add_zero]

theorem laps_elsewhere (inside : cursor < slots) (later : 2 ≤ remaining)
    (elsewhere : position slots cursor remaining ≠ cursor) :
    laps slots remaining = laps slots (remaining - 1) := by
  have partly : ¬ slots ∣ remaining - 1 := fun whole =>
    elsewhere ((position_eq_cursor_iff inside).mpr whole)
  have successor : remaining - 1 = remaining - 1 - 1 + 1 := by omega
  unfold laps
  rw [successor] at partly ⊢
  exact Nat.succ_div_of_not_dvd partly

/-! ## Events put behind the cursor

While the slot at the cursor is being visited, an event that is put in it waits for the next turn.
-/

/-- In how many visits after the one in progress an event comes that is put `offset` slots ahead. -/
def delay (slots offset : Nat) : Nat := if slots ∣ offset then offset + slots else offset

variable {offset : Nat}

theorem one_le_delay (ahead : 1 ≤ offset) : 1 ≤ delay slots offset := by
  unfold delay
  split <;> omega

theorem position_delay (ahead : 1 ≤ offset) :
    position slots ((cursor + 1) % slots) (delay slots offset) =
      position slots cursor (offset + 1) := by
  have later : 2 ≤ delay slots offset + 1 := Nat.succ_le_succ (one_le_delay ahead)
  have moved : position slots ((cursor + 1) % slots) (delay slots offset + 1 - 1) =
      position slots cursor (delay slots offset + 1) := position_advance later
  rw [Nat.add_sub_cancel] at moved
  rw [moved]
  unfold position delay
  simp only [Nat.add_sub_cancel]
  split
  · rw [← Nat.add_assoc, Nat.add_mod_right]
  · rfl

theorem laps_delay (positive : 0 < slots) (ahead : 1 ≤ offset) :
    laps slots (delay slots offset) = laps slots (offset + 1) := by
  unfold laps delay
  rw [Nat.add_sub_cancel]
  split
  · next whole =>
      obtain ⟨turns, rfl⟩ := whole
      rw [Nat.add_sub_assoc positive, Nat.mul_add_div positive, Nat.div_eq_of_lt (by omega),
        Nat.mul_div_cancel_left _ positive, Nat.add_zero]
  · next partly =>
      obtain ⟨before, rfl⟩ : ∃ before, offset = before + 1 := ⟨offset - 1, by omega⟩
      rw [Nat.add_sub_cancel]
      exact (Nat.succ_div_of_not_dvd partly).symm

end HPLinuxServer.Scheduling
