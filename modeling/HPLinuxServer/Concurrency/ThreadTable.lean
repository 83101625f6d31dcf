import Mathlib.Algebra.GroupWithZero.Nat
import Mathlib.Data.List.Basic

/-!
# Tables of threads

The places of a number of threads in a list, and how the numbers of threads at each
kind of place change when one thread moves on.
-/

set_option autoImplicit false

namespace HPLinuxServer.Concurrency

variable {α : Type} {table : List α} {index : Nat} {place : α}

/-- A thread of the table moves, and is counted at its new place instead of its old one. -/
theorem countP_move (counted : α → Bool) (found : table[index]? = some place) (next : α) :
    (table.set index next).countP counted + (counted place).toNat =
      table.countP counted + (counted next).toNat := by
  induction table generalizing index with
  | nil => exact nomatch found
  | cons first rest ih =>
      cases index with
      | zero =>
          obtain rfl : first = place := by simpa using found
          simp only [List.set_cons_zero, List.countP_cons]
          cases counted first <;> cases counted next <;> simp
      | succ index =>
          have moved := ih found
          simp only [List.set_cons_succ, List.countP_cons]
          omega

/-- The same for a weight of the places. -/
theorem sum_move (weight : α → Nat) (found : table[index]? = some place) (next : α) :
    ((table.set index next).map weight).sum + weight place =
      (table.map weight).sum + weight next := by
  induction table generalizing index with
  | nil => exact nomatch found
  | cons first rest ih =>
      cases index with
      | zero =>
          obtain rfl : first = place := by simpa using found
          simp only [List.set_cons_zero, List.map_cons, List.sum_cons]
          omega
      | succ index =>
          have moved := ih found
          simp only [List.set_cons_succ, List.map_cons, List.sum_cons]
          omega

theorem sum_le_length {weight : α → Nat} {bound : Nat} (light : ∀ place, weight place ≤ bound)
    (table : List α) : (table.map weight).sum ≤ bound * table.length := by
  induction table with
  | nil => exact Nat.zero_le _
  | cons first rest ih =>
      have here := light first
      simp only [List.map_cons, List.sum_cons, List.length_cons, Nat.mul_succ]
      omega

theorem getElem?_move {other : Nat} {next placeOf : α}
    (found : (table.set index next)[other]? = some placeOf) :
    other = index ∧ placeOf = next ∨ other ≠ index ∧ table[other]? = some placeOf := by
  by_cases same : index = other
  · subst same
    left
    obtain ⟨inside, value⟩ := List.getElem?_eq_some_iff.mp found
    refine ⟨rfl, ?_⟩
    rw [← value, List.getElem_set_self]
  · right
    rw [List.getElem?_set_ne same] at found
    exact ⟨fun equal => same equal.symm, found⟩

end HPLinuxServer.Concurrency
