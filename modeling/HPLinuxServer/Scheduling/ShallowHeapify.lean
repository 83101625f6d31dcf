import Mathlib.Logic.Equiv.Basic
import HPLinuxServer.Scheduling.BinaryHeap

/-!
# Heaps that are built by shallow sifts

The keys of an array, over any linear order, are sifted from the last parent to the root. A
key that is greater than the lesser of its children changes places with it and goes no
further; a child without children of its own cannot take it. The result is a heap if no key
had to go further.
-/

set_option autoImplicit false

namespace HPLinuxServer.Scheduling

/-- The positions at `root` and below. -/
inductive Subtree (root : Nat) : Nat → Prop where
  | root : Subtree root root
  | child {i child : Nat} (inside : Subtree root i) (isChild : IsChild child i) :
      Subtree root child

namespace Subtree

variable {root i child pos : Nat}

theorem le (inside : Subtree root i) : root ≤ i := by
  induction inside with
  | root => exact Nat.le_refl _
  | child _ isChild ih => exact Nat.le_trans ih (Nat.le_of_lt isChild.lt)

theorem parent (inside : Subtree root child) (lower : child ≠ root) (isChild : IsChild child pos) :
    Subtree root pos := by
  cases inside with
  | root => exact absurd rfl lower
  | child above isChild' =>
      obtain rfl := isChild'.2.symm.trans isChild.2
      exact above

theorem top (inside : Subtree root i) :
    i = root ∨ ∃ child, IsChild child root ∧ Subtree child i := by
  induction inside with
  | root => exact .inl rfl
  | child _ isChild ih =>
      rcases ih with rfl | ⟨first, isFirst, below⟩
      · exact .inr ⟨_, isChild, .root⟩
      · exact .inr ⟨first, isFirst, below.child isChild⟩

/-- An exchange of a position with its child keeps every other subtree. -/
theorem swap_iff (isChild : IsChild child pos) (other : root ≠ child) (i : Nat) :
    Subtree root (Equiv.swap pos child i) ↔ Subtree root i := by
  have both : Subtree root pos ↔ Subtree root child :=
    ⟨fun inside => inside.child isChild, fun inside => inside.parent (Ne.symm other) isChild⟩
  by_cases here : i = pos
  · rw [here, Equiv.swap_apply_left]
    exact both.symm
  · by_cases there : i = child
    · rw [there, Equiv.swap_apply_right]
      exact both
    · rw [Equiv.swap_apply_of_ne_of_ne here there]

end Subtree

section Swap

variable {κ : Type} {key : Nat → κ} {pos child : Nat}

theorem swap_apart {i : Nat} (here : i ≠ pos) (there : i ≠ child) :
    (key ∘ Equiv.swap pos child) i = key i :=
  congrArg key (Equiv.swap_apply_of_ne_of_ne here there)

theorem swap_pos : (key ∘ Equiv.swap pos child) pos = key child :=
  congrArg key (Equiv.swap_apply_left pos child)

theorem swap_child : (key ∘ Equiv.swap pos child) child = key pos :=
  congrArg key (Equiv.swap_apply_right pos child)

end Swap

variable {κ : Type} [LinearOrder κ] {key key' input : Nat → κ} {size low pos child : Nat}

/-! ## Sifts -/

/-- The sift of one position; nothing if a key would have to go to a leaf. -/
def shallowSift (size : Nat) (key : Nat → κ) (pos : Nat) : Option (Nat → κ) :=
  if 2 * pos + 1 < size ∧ key (lesser key size pos) < key pos then
    if 2 * lesser key size pos + 1 < size then
      some (key ∘ Equiv.swap pos (lesser key size pos))
    else none
  else some key

/-- The sifts of the positions below `pos`, the last one first. -/
def shallowHeapify (size : Nat) : Nat → (Nat → κ) → Option (Nat → κ)
  | 0, key => some key
  | pos + 1, key => (shallowSift size key pos).bind (shallowHeapify size pos)

/-- A sift changes nothing, or exchanges a key with that of a child. -/
theorem shallowSift_cases (sifted : shallowSift size key pos = some key') :
    (key' = key ∧ (2 * pos + 1 < size → key pos ≤ key (lesser key size pos))) ∨
      (key' = key ∘ Equiv.swap pos (lesser key size pos) ∧ 2 * pos + 1 < size ∧
        key (lesser key size pos) < key pos ∧ 2 * lesser key size pos + 1 < size) := by
  unfold shallowSift at sifted
  by_cases less : 2 * pos + 1 < size ∧ key (lesser key size pos) < key pos
  · rw [if_pos less] at sifted
    by_cases inner : 2 * lesser key size pos + 1 < size
    · rw [if_pos inner] at sifted
      exact .inr ⟨(Option.some.inj sifted).symm, less.1, less.2, inner⟩
    · rw [if_neg inner] at sifted
      cases sifted
  · rw [if_neg less] at sifted
    refine .inl ⟨(Option.some.inj sifted).symm, fun inside => ?_⟩
    exact le_of_not_gt fun earlier => less ⟨inside, earlier⟩

theorem shallowSift_apart (sifted : shallowSift size key pos = some key') {i : Nat}
    (here : i ≠ pos) (there : ¬ IsChild i pos) : key' i = key i := by
  rcases shallowSift_cases sifted with ⟨rfl, -⟩ | ⟨rfl, -⟩
  · rfl
  · exact swap_apart here fun same => there (same ▸ lesser_isChild key size pos)

/-! ## Order from a position on -/

/-- No key is above that of its parent, where the parent is at `low` or behind it. -/
def OrderedFrom (low : Nat) (key : Nat → κ) (size : Nat) : Prop :=
  ∀ i, 0 < i → i < size → low ≤ (i - 1) / 2 → key ((i - 1) / 2) ≤ key i

theorem OrderedFrom.subtree_le (ordered : OrderedFrom low key size) {root i : Nat}
    (behind : low ≤ root) (inside : Subtree root i) (within : i < size) : key root ≤ key i := by
  induction inside with
  | root => exact le_refl _
  | child above isChild ih =>
      have step := ordered _ isChild.1 within
      rw [isChild.2] at step
      exact le_trans (ih (Nat.lt_trans isChild.lt within))
        (step (Nat.le_trans behind above.le))

theorem orderedFrom_zero : OrderedFrom 0 key size ↔ HeapOrdered key size :=
  ⟨fun ordered i positive inside => ordered i positive inside (Nat.zero_le _),
    fun ordered i positive inside _ => ordered i positive inside⟩

/-- The first of the keys below `pos` is at or below `child`; of two equal ones the left one
counts. -/
def Leads (key : Nat → κ) (size pos child : Nat) : Prop :=
  IsChild child pos ∧ ∃ least, Subtree child least ∧ least < size ∧
    ∀ other, IsChild other pos → ∀ i, Subtree other i → i < size →
      (child < other → key least ≤ key i) ∧ (other < child → key least < key i)

/-- In order below the positions that are to be sifted next. -/
def FrontOrdered (low : Nat) (key : Nat → κ) (size : Nat) : Prop :=
  ∀ i, 0 < i → i < size → low ≤ (i - 1) / 2 → ((i - 1) / 2 - 1) / 2 < low →
    key ((i - 1) / 2) ≤ key i

theorem FrontOrdered.sift (front : FrontOrdered (pos + 1) key size)
    (sifted : shallowSift size key pos = some key') : FrontOrdered pos key' size := by
  intro i positive within behind near
  by_cases underPos : (i - 1) / 2 = pos
  · have isChild : IsChild i pos := ⟨positive, underPos⟩
    have choice := isChild_iff.mp isChild
    rw [underPos]
    rcases shallowSift_cases sifted with ⟨rfl, stays⟩ | ⟨rfl, -, less, -⟩
    · exact le_trans (stays (by omega)) (lesser_le isChild within)
    · rw [swap_pos]
      by_cases atLesser : i = lesser key size pos
      · rw [atLesser, swap_child]
        exact le_of_lt less
      · rw [swap_apart (Nat.ne_of_gt isChild.lt) atLesser]
        exact lesser_le isChild within
  · have notHere : ¬ IsChild i pos := fun isChild => underPos isChild.2
    have notParent : ¬ IsChild ((i - 1) / 2) pos := fun isChild => by
      have same := isChild.2
      omega
    rw [shallowSift_apart sifted (by omega) notHere, shallowSift_apart sifted underPos notParent]
    exact front i positive within (by omega) (by omega)

/-- On the side that leads, at most one key belongs above the one at `pos`, and none if that
side is a leaf. -/
def SinksOnce (key : Nat → κ) (size pos : Nat) : Prop :=
  ∀ child, Leads key size pos child → ∀ i j, Subtree child i → Subtree child j →
    i < size → j < size → key i < key pos → key j < key pos → i = j ∧ 2 * child + 1 < size

theorem leads_iff (ordered : OrderedFrom (pos + 1) key size) (inside : 2 * pos + 1 < size) :
    Leads key size pos child ↔ child = lesser key size pos := by
  constructor
  · rintro ⟨isChild, least, below, within, first⟩
    by_contra different
    have top : key child ≤ key least := ordered.subtree_le isChild.lt below within
    have against := first _ (lesser_isChild key size pos) _ .root (lesser_lt inside)
    rcases Nat.lt_or_gt_of_ne different with before | behind
    · have less := lt_of_lt_of_le (lesser_lt_left isChild before) top
      exact absurd less (not_lt_of_ge (against.1 before))
    · have bound : key (lesser key size pos) ≤ key child :=
        lesser_le isChild (Nat.lt_of_le_of_lt below.le within)
      exact absurd (lt_of_le_of_lt top (against.2 behind)) (not_lt_of_ge bound)
  · rintro rfl
    refine ⟨lesser_isChild key size pos, _, .root, lesser_lt inside,
      fun other isOther i below within => ?_⟩
    have top : key other ≤ key i := ordered.subtree_le isOther.lt below within
    have bound : key (lesser key size pos) ≤ key other :=
      lesser_le isOther (Nat.lt_of_le_of_lt below.le within)
    exact ⟨fun _ => le_trans bound top,
      fun before => lt_of_lt_of_le (lesser_lt_left isOther before) top⟩

/-- The key that sinks is still above another one of its side. -/
def Broken (low : Nat) (key : Nat → κ) (size : Nat) : Prop :=
  ∃ i, i < size ∧ 0 < (i - 1) / 2 ∧ low ≤ ((i - 1) / 2 - 1) / 2 ∧ key i < key ((i - 1) / 2)

theorem Broken.not_ordered (broken : Broken low key size) : ¬ HeapOrdered key size := by
  obtain ⟨i, inside, positive, -, less⟩ := broken
  intro ordered
  exact absurd (ordered i (by omega) inside) (not_le_of_gt less)

/-- A later sift does not come down there. -/
theorem Broken.sift (broken : Broken (pos + 1) key size)
    (sifted : shallowSift size key pos = some key') : Broken pos key' size := by
  obtain ⟨i, inside, positive, behind, less⟩ := broken
  refine ⟨i, inside, positive, by omega, ?_⟩
  have notHere : ¬ IsChild i pos := fun isChild => by
    have same := isChild.2
    omega
  have notParent : ¬ IsChild ((i - 1) / 2) pos := fun isChild => by
    have same := isChild.2
    omega
  rw [shallowSift_apart sifted (by omega) notHere, shallowSift_apart sifted (by omega) notParent]
  exact less

theorem shallowSift_keeps (ordered : OrderedFrom (pos + 1) key size)
    (sinks : SinksOnce key size pos) :
    ∃ key', shallowSift size key pos = some key' ∧ OrderedFrom pos key' size := by
  unfold shallowSift
  by_cases less : 2 * pos + 1 < size ∧ key (lesser key size pos) < key pos
  · obtain ⟨inside, less⟩ := less
    have only := sinks _ ((leads_iff ordered inside).mpr rfl)
    have inner := (only _ _ .root .root (lesser_lt inside) (lesser_lt inside) less less).2
    rw [if_pos ⟨inside, less⟩, if_pos inner]
    refine ⟨_, rfl, ?_⟩
    have isLesser := lesser_isChild key size pos
    have apart := isLesser.lt
    intro i positive within behind
    by_cases atLesser : i = lesser key size pos
    · rw [atLesser, isLesser.2, swap_pos, swap_child]
      exact le_of_lt less
    by_cases underPos : (i - 1) / 2 = pos
    · have isChild : IsChild i pos := ⟨positive, underPos⟩
      rw [underPos, swap_pos, swap_apart (Nat.ne_of_gt isChild.lt) atLesser]
      exact lesser_le isChild within
    have notPos : i ≠ pos := by omega
    rw [swap_apart notPos atLesser]
    by_cases underLesser : (i - 1) / 2 = lesser key size pos
    · -- no other key of this side is below the one that sinks
      rw [underLesser, swap_child]
      apply le_of_not_gt
      intro earlier
      have below : Subtree (lesser key size pos) i := Subtree.root.child ⟨positive, underLesser⟩
      exact atLesser
        (only i _ below .root within (lesser_lt inside) earlier less).1
    · rw [swap_apart underPos underLesser]
      exact ordered i positive within (by omega)
  · rw [if_neg less]
    refine ⟨key, rfl, fun i positive within behind => ?_⟩
    by_cases underPos : (i - 1) / 2 = pos
    · have isChild : IsChild i pos := ⟨positive, underPos⟩
      have choice := isChild_iff.mp isChild
      rw [underPos]
      exact le_trans (le_of_not_gt fun earlier => less ⟨by omega, earlier⟩)
        (lesser_le isChild within)
    · exact ordered i positive within (by omega)

theorem shallowSift_breaks (ordered : OrderedFrom (pos + 1) key size)
    (fails : ¬ SinksOnce key size pos) (sifted : shallowSift size key pos = some key') :
    Broken pos key' size := by
  simp only [SinksOnce, not_forall] at fails
  obtain ⟨child, leads, i, j, belowI, belowJ, insideI, insideJ, lessI, lessJ, apart⟩ := fails
  have within := Nat.lt_of_le_of_lt belowI.le insideI
  have choice := isChild_iff.mp leads.1
  have inside : 2 * pos + 1 < size := by omega
  obtain rfl := (leads_iff ordered inside).mp leads
  have top : key (lesser key size pos) ≤ key i :=
    ordered.subtree_le leads.1.lt belowI insideI
  rcases shallowSift_cases sifted with ⟨-, stays⟩ | ⟨rfl, -, less, inner⟩
  · exact absurd (lt_of_le_of_lt top lessI) (not_lt_of_ge (stays inside))
  · -- one of the two keys is not the one that moves up
    have other : ∃ d, Subtree (lesser key size pos) d ∧ d < size ∧ key d < key pos ∧
        d ≠ lesser key size pos := by
      by_cases atLesser : i = lesser key size pos
      · refine ⟨j, belowJ, insideJ, lessJ, fun same => ?_⟩
        exact apart ⟨atLesser.trans same.symm, inner⟩
      · exact ⟨i, belowI, insideI, lessI, atLesser⟩
    obtain ⟨d, belowD, insideD, lessD, different⟩ := other
    obtain same | ⟨grandchild, isGrandchild, under⟩ := belowD.top
    · exact absurd same different
    have positive := leads.1.1
    have behind := leads.1.lt
    have lower := isGrandchild.lt
    refine ⟨grandchild, Nat.lt_of_le_of_lt under.le insideD, ?_, ?_, ?_⟩
    · rw [isGrandchild.2]
      exact positive
    · exact Nat.le_of_eq (by rw [isGrandchild.2, leads.1.2])
    · rw [isGrandchild.2, swap_child, swap_apart (by omega) (by omega)]
      exact lt_of_le_of_lt (ordered.subtree_le (by omega) under insideD) lessD

/-! ## The whole array -/

theorem leads_map {σ : Equiv.Perm Nat} (same : ∀ i, key i = input (σ i))
    (within : ∀ i, σ i < size ↔ i < size)
    (kept : ∀ child, IsChild child pos → ∀ i, Subtree child (σ i) ↔ Subtree child i)
    (leads : Leads key size pos child) : Leads input size pos child := by
  obtain ⟨isChild, least, below, inside, first⟩ := leads
  refine ⟨isChild, σ least, (kept child isChild least).mpr below, (within least).mpr inside,
    fun other isOther i belowOther insideOther => ?_⟩
  obtain ⟨before, rfl⟩ := σ.surjective i
  have compared := first other isOther before ((kept other isOther before).mp belowOther)
    ((within before).mp insideOther)
  rw [same, same] at compared
  exact compared

theorem sinksOnce_map (σ : Equiv.Perm Nat) (same : ∀ i, key i = input (σ i)) (fixed : σ pos = pos)
    (within : ∀ i, σ i < size ↔ i < size)
    (kept : ∀ child, IsChild child pos → ∀ i, Subtree child (σ i) ↔ Subtree child i)
    (sinks : SinksOnce input size pos) : SinksOnce key size pos := by
  intro child leads i j belowI belowJ insideI insideJ lessI lessJ
  rw [same i, same pos, fixed] at lessI
  rw [same j, same pos, fixed] at lessJ
  have isChild := leads.1
  obtain ⟨equal, inner⟩ := sinks child (leads_map same within kept leads) (σ i) (σ j)
    ((kept child isChild i).mpr belowI) ((kept child isChild j).mpr belowJ)
    ((within i).mpr insideI) ((within j).mpr insideJ) lessI lessJ
  exact ⟨σ.injective equal, inner⟩

/-- The keys after the sifts from `low` on: those before `low` are untouched, and no key has
left a subtree whose root has no sifted parent. -/
def Rearranged (low : Nat) (input key : Nat → κ) (size : Nat) : Prop :=
  ∃ σ : Equiv.Perm Nat, (∀ i, key i = input (σ i)) ∧ (∀ i, i < low → σ i = i) ∧
    (∀ i, σ i < size ↔ i < size) ∧
    ∀ root, (root - 1) / 2 < low → ∀ i, Subtree root (σ i) ↔ Subtree root i

theorem Rearranged.sinksOnce_iff (rearranged : Rearranged (pos + 1) input key size) :
    SinksOnce key size pos ↔ SinksOnce input size pos := by
  obtain ⟨σ, same, fixed, within, kept⟩ := rearranged
  have here := fixed pos (Nat.lt_succ_self pos)
  have keptChild : ∀ child, IsChild child pos → ∀ i, Subtree child (σ i) ↔ Subtree child i :=
    fun child isChild => kept child (isChild.2.symm ▸ Nat.lt_succ_self pos)
  constructor
  · apply sinksOnce_map σ.symm
    · intro i
      rw [same, Equiv.apply_symm_apply]
    · rw [Equiv.symm_apply_eq, here]
    · intro i
      rw [← within, Equiv.apply_symm_apply]
    · intro child isChild i
      rw [← keptChild child isChild, Equiv.apply_symm_apply]
  · exact sinksOnce_map σ same here within keptChild

theorem Rearranged.sift (rearranged : Rearranged (pos + 1) input key size)
    (sifted : shallowSift size key pos = some key') : Rearranged pos input key' size := by
  obtain ⟨σ, same, fixed, within, kept⟩ := rearranged
  rcases shallowSift_cases sifted with ⟨rfl, -⟩ | ⟨rfl, inside, -, -⟩
  · exact ⟨σ, same, fun i before => fixed i (by omega), within,
      fun root behind => kept root (by omega)⟩
  · have isLesser := lesser_isChild key size pos
    have apart := isLesser.lt
    have lesserInside : lesser key size pos < size := lesser_lt inside
    refine ⟨(Equiv.swap pos (lesser key size pos)).trans σ, fun i => same _, ?_, ?_, ?_⟩
    · intro i before
      rw [Equiv.trans_apply, Equiv.swap_apply_of_ne_of_ne (by omega) (by omega)]
      exact fixed i (by omega)
    · intro i
      rw [Equiv.trans_apply, within]
      by_cases here : i = pos
      · rw [here, Equiv.swap_apply_left]
        omega
      · by_cases there : i = lesser key size pos
        · rw [there, Equiv.swap_apply_right]
          omega
        · rw [Equiv.swap_apply_of_ne_of_ne here there]
    · intro root behind i
      have other : root ≠ lesser key size pos := by
        rintro rfl
        rw [isLesser.2] at behind
        exact absurd behind (Nat.lt_irrefl pos)
      rw [Equiv.trans_apply, kept root (by omega), Subtree.swap_iff isLesser other]

theorem Broken.heapify (broken : Broken low key size)
    (built : shallowHeapify size low key = some key') : ¬ HeapOrdered key' size := by
  induction low generalizing key with
  | zero =>
      obtain rfl := Option.some.inj built
      exact broken.not_ordered
  | succ pos ih =>
      obtain ⟨next, sifted, rest⟩ := Option.bind_eq_some_iff.mp built
      exact ih (broken.sift sifted) rest

theorem shallowHeapify_from (rearranged : Rearranged low input key size)
    (ordered : OrderedFrom low key size) :
    (∃ key', shallowHeapify size low key = some key' ∧ HeapOrdered key' size) ↔
      ∀ pos, pos < low → SinksOnce input size pos := by
  induction low generalizing key with
  | zero =>
      refine ⟨fun _ pos before => absurd before (Nat.not_lt_zero pos), fun _ => ?_⟩
      exact ⟨key, rfl, orderedFrom_zero.mp ordered⟩
  | succ pos ih =>
      by_cases sinks : SinksOnce input size pos
      · obtain ⟨next, sifted, orderedNext⟩ :=
          shallowSift_keeps ordered (rearranged.sinksOnce_iff.mpr sinks)
        have later := ih (rearranged.sift sifted) orderedNext
        unfold shallowHeapify
        rw [sifted, Option.bind_some, later]
        constructor
        · intro before other inside
          rcases Nat.lt_succ_iff_lt_or_eq.mp inside with earlier | rfl
          · exact before other earlier
          · exact sinks
        · exact fun all other inside => all other (Nat.lt_succ_of_lt inside)
      · refine ⟨?_, fun all => absurd (all pos (Nat.lt_succ_self pos)) sinks⟩
        rintro ⟨key', built, isHeap⟩
        obtain ⟨next, sifted, rest⟩ := Option.bind_eq_some_iff.mp built
        have broken := shallowSift_breaks ordered
          (fun sinksHere => sinks (rearranged.sinksOnce_iff.mp sinksHere)) sifted
        exact absurd isHeap (broken.heapify rest)

/-- The sifts from the last parent on make a heap exactly if no key of the array has to sink
further than to an inner child. -/
theorem shallowHeapify_iff (leaves : size ≤ 2 * low + 1) :
    (∃ key', shallowHeapify size low key = some key' ∧ HeapOrdered key' size) ↔
      ∀ pos, SinksOnce key size pos := by
  have start : Rearranged low key key size :=
    ⟨Equiv.refl Nat, fun _ => rfl, fun _ _ => rfl, fun _ => Iff.rfl, fun _ _ _ => Iff.rfl⟩
  have ordered : OrderedFrom low key size := fun i positive inside behind => by omega
  rw [shallowHeapify_from start ordered]
  refine ⟨fun all pos => ?_, fun all pos _ => all pos⟩
  by_cases before : pos < low
  · exact all pos before
  · intro child leads i _ below _ inside
    have choice := isChild_iff.mp leads.1
    have beneath := below.le
    omega

end HPLinuxServer.Scheduling
