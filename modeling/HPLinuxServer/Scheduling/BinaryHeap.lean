import Mathlib.Order.Lattice

/-!
# Binary heap order

Keys at the positions below `size`, where the parent of `i` is `(i - 1) / 2`, over
any preorder of keys: no key is above its parent's. Over a linear order one of the two
children of a position is the lesser one.
-/

set_option autoImplicit false

namespace HPLinuxServer.Scheduling

variable {κ : Type} [Preorder κ] {key key' : Nat → κ} {size : Nat}

/-- `child` is one of the two children of `pos`. -/
def IsChild (child pos : Nat) : Prop := 0 < child ∧ (child - 1) / 2 = pos

theorem isChild_iff {child pos : Nat} :
    IsChild child pos ↔ child = 2 * pos + 1 ∨ child = 2 * pos + 2 := by
  unfold IsChild
  omega

theorem IsChild.lt {child pos : Nat} (isChild : IsChild child pos) : pos < child := by
  obtain ⟨positive, parent⟩ := isChild
  omega

def HeapOrdered (key : Nat → κ) (size : Nat) : Prop :=
  ∀ i, 0 < i → i < size → key ((i - 1) / 2) ≤ key i

namespace HeapOrdered

theorem congr (ordered : HeapOrdered key size) (same : ∀ i, i < size → key' i = key i) :
    HeapOrdered key' size := by
  intro i positive inside
  rw [same i inside, same _ (by omega)]
  exact ordered i positive inside

theorem mono (ordered : HeapOrdered key size) {smaller : Nat} (fewer : smaller ≤ size) :
    HeapOrdered key smaller := by
  intro i positive inside
  exact ordered i positive (by omega)

theorem root_le (ordered : HeapOrdered key size) {i : Nat} (inside : i < size) :
    key 0 ≤ key i := by
  induction i using Nat.strongRecOn with
  | ind i ih =>
      by_cases root : i = 0
      · rw [root]
      · exact le_trans (ih ((i - 1) / 2) (by omega) (by omega)) (ordered i (by omega) inside)

theorem push (ordered : HeapOrdered key size)
    (above : 0 < size → key ((size - 1) / 2) ≤ key size) : HeapOrdered key (size + 1) := by
  intro i positive inside
  by_cases last : i = size
  · subst last
    exact above positive
  · exact ordered i positive (by omega)

theorem replace_root (ordered : HeapOrdered key size) (same : ∀ i, i ≠ 0 → key' i = key i)
    (least : ∀ i, IsChild i 0 → i < size → key' 0 ≤ key i) : HeapOrdered key' size := by
  intro i positive inside
  rw [same i (by omega)]
  by_cases child : (i - 1) / 2 = 0
  · rw [child]
    exact least i ⟨positive, child⟩ inside
  · rw [same _ child]
    exact ordered i positive inside

/-- The lesser child of `pos` moves up, and a key between it and its children
takes its place. -/
theorem sink (ordered : HeapOrdered key size) {pos child : Nat} (isChild : IsChild child pos)
    (inside : child < size) (rises : key' pos = key child)
    (same : ∀ i, i ≠ pos → i ≠ child → key' i = key i)
    (least : ∀ i, IsChild i pos → i < size → key child ≤ key i)
    (above : key child ≤ key' child)
    (below : ∀ i, IsChild i child → i < size → key' child ≤ key i) : HeapOrdered key' size := by
  obtain ⟨positiveChild, parentChild⟩ := isChild
  intro i positive within
  by_cases atChild : i = child
  · subst atChild
    rw [parentChild, rises]
    exact above
  · by_cases atPos : i = pos
    · subst atPos
      have parentApart : (i - 1) / 2 ≠ i := by omega
      have parentNotChild : (i - 1) / 2 ≠ child := by omega
      rw [rises, same _ parentApart parentNotChild]
      have up := ordered child positiveChild inside
      rw [parentChild] at up
      exact le_trans (ordered i positive within) up
    · rw [same i atPos atChild]
      by_cases underPos : (i - 1) / 2 = pos
      · rw [underPos, rises]
        exact least i ⟨positive, underPos⟩ within
      · by_cases underChild : (i - 1) / 2 = child
        · rw [underChild]
          exact below i ⟨positive, underChild⟩ within
        · rw [same _ underPos underChild]
          exact ordered i positive within

end HeapOrdered

/-! ## The lesser child -/

section Lesser

variable {κ : Type} [LinearOrder κ] {key key' : Nat → κ} {size pos child : Nat}

/-- The lesser child; the first one if there is no other or they are equal. -/
def lesser (key : Nat → κ) (size pos : Nat) : Nat :=
  if 2 * pos + 2 < size ∧ key (2 * pos + 2) < key (2 * pos + 1) then 2 * pos + 2 else 2 * pos + 1

theorem lesser_isChild (key : Nat → κ) (size pos : Nat) : IsChild (lesser key size pos) pos := by
  apply isChild_iff.mpr
  unfold lesser
  split
  · exact .inr rfl
  · exact .inl rfl

theorem lesser_lt (inside : 2 * pos + 1 < size) : lesser key size pos < size := by
  unfold lesser
  split
  · next less => exact less.1
  · exact inside

theorem lesser_le (isChild : IsChild child pos) (inside : child < size) :
    key (lesser key size pos) ≤ key child := by
  unfold lesser
  rcases isChild_iff.mp isChild with rfl | rfl
  · split
    · next less => exact le_of_lt less.2
    · exact le_refl _
  · split
    · exact le_refl _
    · next notLess => exact le_of_not_gt fun less => notLess ⟨inside, less⟩

/-- The right child is the lesser one only if it is less. -/
theorem lesser_lt_left (isChild : IsChild child pos) (before : child < lesser key size pos) :
    key (lesser key size pos) < key child := by
  have choice := isChild_iff.mp isChild
  unfold lesser at before ⊢
  split
  · next less =>
      rw [if_pos less] at before
      obtain rfl : child = 2 * pos + 1 := by omega
      exact less.2
  · next notLess =>
      rw [if_neg notLess] at before
      omega

theorem lesser_congr (same : ∀ i, pos < i → key' i = key i) :
    lesser key' size pos = lesser key size pos := by
  unfold lesser
  rw [same _ (by omega), same _ (by omega)]

/-- The key at `pos` is above the one of its lesser child, which is `next`. -/
def Sinks (key : Nat → κ) (size pos next : Nat) : Prop :=
  2 * pos + 1 < size ∧ next = lesser key size pos ∧ key next < key pos

end Lesser

end HPLinuxServer.Scheduling
