import HPLinuxServer.Timer.TimeHeapInsertion
import HPLinuxServer.Timer.TimeHeapSift

/-!
# When the time heap stays a heap

The array holds a list of timers in heap order. `add_timer` compares only with
one fixed position, and `precolate_down` moves a timer down by one level at
most, so each of them keeps the order under a condition on the timers near the
place of insertion or of removal.
-/

set_option autoImplicit false

namespace HPLinuxServer.Timer

open Memory Scheduling

variable {γ υ : Type}

namespace TimeHeap

/-- When `add_timer` puts a timer in order: there is room, and neither the
position it compares with nor the parent of the new one expires later. -/
def AddFits (heap : TimeHeap γ υ) (expire : Int) : Prop :=
  heap.curSize < heap.capacity ∧
    (heap.curSize ≤ 1 ∨
      heap.ExpiresBy (heap.curSize.tdiv 2) expire ∧
        heap.ExpiresBy ((heap.curSize - 1).tdiv 2) expire)

/-- A timer that expires at `last` belongs right below the root, at `child`, with
`size` timers in the heap, and goes no further. The first entry below is read even
if it is beyond the end. -/
def BelowFits (heap : TimeHeap γ υ) (size child last : Int) : Prop :=
  (∃ least, heap.expireAt child = .ok least ∧ heap.ExpiresFrom (2 * child + 1) least) ∧
    ∀ grandchild ∈ [2 * child + 1, 2 * child + 2], grandchild < size →
      heap.ExpiresFrom grandchild last

/-- When `pop_timer` leaves a heap. The last timer, which takes the place of the
root, belongs there or right below. -/
def PopFits (heap : TimeHeap γ υ) : Prop :=
  heap.curSize ≤ 2 ∨
    match heap.expireAt (heap.curSize - 1),
        TimeHeap.lesserChild { heap with curSize := heap.curSize - 1 } 0 with
    | .ok last, .ok child =>
        heap.ExpiresFrom child last ∨
          heap.entry (2 * child + 1) ≠ heap.entry 0 ∧
            heap.BelowFits (heap.curSize - 1) child last
    | _, _ => False

end TimeHeap

/-! ## Adding a timer -/

namespace Holds

variable {heap : TimeHeap γ υ} {contents : List HeapEntry}

/-- A timer that expires no earlier than the one it is compared with stays at
the end. -/
theorem addTimer_append (holds : Holds heap contents) {entry : HeapEntry}
    (made : (heap.timers entry.timer).map HeapTimer.expire = some entry.expire)
    (fresh : entry.timer ∉ contents.map HeapEntry.timer) (room : heap.curSize < heap.capacity)
    (stays : contents ≠ [] → expireOf contents (contents.length / 2) ≤ entry.expire)
    {fuel : Nat} (enough : 1 ≤ fuel) (newArray : Addr) :
    ∃ heap', heap.addTimer fuel (some entry.timer) newArray = .ok heap' ∧
      Holds heap' (contents ++ [entry]) ∧ heap'.timers = heap.timers := by
  obtain ⟨cells, block, capacity, points⟩ := holds.block
  obtain ⟨node, live, expire⟩ := Option.map_eq_some_iff.mp made
  have curSize := holds.curSize
  have within : contents.length < cells.length := by omega
  obtain ⟨fuel, rfl⟩ : ∃ smaller, fuel = smaller + 1 := ⟨fuel - 1, by omega⟩
  have looped : TimeHeap.addTimerLoop (fuel + 1) heap.counted (some entry.timer)
      (contents.length : Int) = .ok (heap.counted, (contents.length : Int)) := by
    by_cases started : contents = []
    · subst started
      exact TimeHeap.addTimerLoop_root (fuel + 1) (Int.le_refl 0)
    · have positive := List.length_pos_iff.mpr started
      have found := List.getElem?_eq_getElem (by omega : contents.length / 2 < contents.length)
      have first := holds.occupied.round_first block within live found
      have early := stays started
      rw [expireOf_eq found, ← expire] at early
      rw [if_neg (Int.not_lt.mpr early)] at first
      exact TimeHeap.addTimerLoop_ends fuel first
  refine ⟨_, holds.occupied.addTimer_of_loop room looped block within newArray, ?_, rfl⟩
  constructor
  · exact ⟨_, TimeHeap.setCell_block, by simpa using capacity, points.append within entry⟩
  · simp [curSize]
  · exact holds.small
  · exact (holds.live.cons made fresh).perm (List.perm_append_singleton entry contents)

/-- A timer that expires before the only one takes its place. -/
theorem addTimer_swap {entry only : HeapEntry} (holds : Holds heap [only])
    (made : (heap.timers entry.timer).map HeapTimer.expire = some entry.expire)
    (fresh : entry.timer ∉ [only].map HeapEntry.timer) (room : heap.curSize < heap.capacity)
    (before : entry.expire < only.expire) {fuel : Nat} (enough : 1 ≤ fuel) (newArray : Addr) :
    ∃ heap', heap.addTimer fuel (some entry.timer) newArray = .ok heap' ∧
      Holds heap' [entry, only] ∧ heap'.timers = heap.timers := by
  obtain ⟨cells, block, capacity, points⟩ := holds.block
  obtain ⟨node, live, expire⟩ := Option.map_eq_some_iff.mp made
  have curSize : heap.curSize = 1 := holds.curSize
  have within : [only].length < cells.length := by
    rw [List.length_singleton]
    omega
  obtain ⟨fuel, rfl⟩ : ∃ smaller, fuel = smaller + 1 := ⟨fuel - 1, by omega⟩
  have top : [only].length / 2 = 0 := Nat.div_eq_of_lt (by simp)
  have first := holds.occupied.round_first block within live
    (by rw [top]; rfl : [only][[only].length / 2]? = some only)
  rw [top, if_pos (by omega)] at first
  have looped := (TimeHeap.addTimerLoop_moves fuel first).trans
    (TimeHeap.addTimerLoop_root fuel (Int.le_refl 0))
  refine ⟨_, holds.occupied.addTimer_of_loop room looped TimeHeap.setCell_block
    (by rw [List.length_set]; exact Nat.zero_lt_of_lt within) newArray, ?_, rfl⟩
  constructor
  · have two : Points (cells.set 1 (some (some only.timer))) [only, only] :=
      points.append within only
    exact ⟨_, TimeHeap.setCell_block, by simpa using capacity, two.set (Nat.succ_pos _) entry⟩
  · simp [curSize]
  · exact holds.small
  · exact holds.live.cons made fresh

end Holds

namespace MinHeap

variable {heap : TimeHeap γ υ} {contents : List HeapEntry}

theorem addTimer_spec (minHeap : MinHeap heap contents) (entry : HeapEntry)
    (made : (heap.timers entry.timer).map HeapTimer.expire = some entry.expire)
    (fresh : entry.timer ∉ contents.map HeapEntry.timer) (fits : heap.AddFits entry.expire)
    {fuel : Nat} (enough : 1 ≤ fuel) (newArray : Addr) :
    ∃ heap' contents', heap.addTimer fuel (some entry.timer) newArray = .ok heap' ∧
      MinHeap heap' contents' ∧ contents'.Perm (entry :: contents) ∧
      heap'.timers = heap.timers := by
  obtain ⟨room, order⟩ := fits
  have holds := minHeap.holds
  have curSize := holds.curSize
  -- behind the last timer, when its parent expires no later
  have appended : (contents ≠ [] → expireOf contents (contents.length / 2) ≤ entry.expire) →
      (contents ≠ [] → expireOf contents ((contents.length - 1) / 2) ≤ entry.expire) →
      ∃ heap' contents', heap.addTimer fuel (some entry.timer) newArray = .ok heap' ∧
        MinHeap heap' contents' ∧ contents'.Perm (entry :: contents) ∧
        heap'.timers = heap.timers := by
    intro stays parent
    obtain ⟨heap', done, holds', timers⟩ :=
      holds.addTimer_append made fresh room stays enough newArray
    refine ⟨heap', _, done, ⟨holds', ?_⟩, List.perm_append_singleton entry contents, timers⟩
    have before : HeapOrdered (expireOf (contents ++ [entry])) contents.length :=
      minHeap.ordered.congr fun i inside => by
        unfold expireOf
        rw [List.getElem?_append_left inside]
    rw [List.length_append]
    apply before.push
    intro positive
    have started : contents ≠ [] := List.length_pos_iff.mp positive
    have same : expireOf (contents ++ [entry]) ((contents.length - 1) / 2) =
        expireOf contents ((contents.length - 1) / 2) := by
      unfold expireOf
      rw [List.getElem?_append_left (by omega)]
    have last : expireOf (contents ++ [entry]) contents.length = entry.expire :=
      expireOf_eq (by simp)
    rw [same, last]
    exact parent started
  rcases order with few | ⟨compared, parent⟩
  · match contents, minHeap with
    | [], _ => exact appended (fun started => absurd rfl started) fun started => absurd rfl started
    | [only], minHeap =>
        by_cases before : entry.expire < only.expire
        · obtain ⟨heap', done, holds', timers⟩ :=
            minHeap.holds.addTimer_swap made fresh room before enough newArray
          refine ⟨heap', _, done, ⟨holds', ?_⟩, List.Perm.refl _, timers⟩
          intro i positive inside
          obtain rfl : i = 1 := by simp at inside; omega
          simpa [expireOf] using Int.le_of_lt before
        · have later : only.expire ≤ entry.expire := Int.not_lt.mp before
          exact appended (fun _ => by simpa [expireOf] using later)
            fun _ => by simpa [expireOf] using later
    | first :: second :: rest, _ =>
        simp only [List.length_cons] at curSize
        omega
  · have middle : heap.curSize.tdiv 2 = ((contents.length / 2 : Nat) : Int) := by
      rw [curSize, Int.tdiv_eq_ediv_of_nonneg (by omega)]
      rfl
    rw [middle] at compared
    apply appended
    · intro started
      have positive := List.length_pos_iff.mpr started
      exact (holds.expiresBy_iff (by omega)).mp compared
    · intro started
      have positive := List.length_pos_iff.mpr started
      have above : (heap.curSize - 1).tdiv 2 = (((contents.length - 1) / 2 : Nat) : Int) := by
        rw [curSize, Int.tdiv_eq_ediv_of_nonneg (by omega)]
        omega
      rw [above] at parent
      exact (holds.expiresBy_iff (by omega)).mp parent

end MinHeap

/-! ## Removing the root -/

theorem Holds.lesserChild_root {heap : TimeHeap γ υ} {contents : List HeapEntry}
    (holds : Holds heap contents) (two : 2 ≤ contents.length) :
    ∃ child : Nat, heap.lesserChild 0 = .ok (child : Int) ∧ IsChild child 0 ∧
      child < contents.length ∧
      ∀ i, IsChild i 0 → i < contents.length → expireOf contents child ≤ expireOf contents i :=
  ⟨lesser (expireOf contents) contents.length 0, holds.occupied.lesserChild_eq two,
    lesser_isChild _ _ _, lesser_lt two, fun _ => lesser_le⟩

/-- What is asked of the heap once the last timer stands at the root. -/
def RootFits (heap : TimeHeap γ υ) (last : Int) : Prop :=
  ∃ child, heap.lesserChild 0 = .ok child ∧
    (heap.ExpiresFrom child last ∨ heap.BelowFits heap.curSize child last)

/-- The lesser child of the root changes places with the root. -/
theorem swapped_ordered {last entry : HeapEntry} {front : List HeapEntry} {key : Nat → Int}
    (ordered : HeapOrdered key (front.length + 1))
    (same : ∀ i, i ≠ 0 → expireOf (last :: front) i = key i) {index : Nat}
    (found : front[index]? = some entry) (isChild : IsChild (index + 1) 0)
    (least : ∀ i, IsChild i 0 → i < front.length + 1 → entry.expire ≤ key i)
    (earlier : entry.expire ≤ last.expire)
    (below : ∀ i, IsChild i (index + 1) → i < front.length + 1 →
      last.expire ≤ expireOf (last :: front) i) :
    HeapOrdered (expireOf (entry :: front.set index last)) (front.length + 1) := by
  have inside := (List.getElem?_eq_some_iff.mp found).1
  have atRoot : expireOf (entry :: front.set index last) 0 = entry.expire := rfl
  have atChild : expireOf (entry :: front.set index last) (index + 1) = last.expire :=
    expireOf_eq (List.getElem?_set_self inside)
  have keyChild : key (index + 1) = entry.expire := by
    rw [← same _ (Nat.succ_ne_zero index)]
    exact expireOf_eq found
  apply ordered.sink isChild (Nat.succ_lt_succ inside)
  · rw [atRoot, keyChild]
  · intro i notRoot notChild
    obtain ⟨before, rfl⟩ : ∃ before, i = before + 1 := ⟨i - 1, by omega⟩
    rw [← same _ notRoot]
    unfold expireOf
    have apart : index ≠ before := fun equal => notChild (equal ▸ rfl)
    simp only [List.getElem?_cons_succ, List.getElem?_set_ne apart]
  · intro i isChildI insideI
    rw [keyChild]
    exact least i isChildI insideI
  · rw [keyChild, atChild]
    exact earlier
  · intro i isGrandchild insideI
    rw [atChild, ← same i (Nat.ne_of_gt isGrandchild.1)]
    exact below i isGrandchild insideI

section Sift

variable {heap : TimeHeap γ υ} {last : HeapEntry} {front : List HeapEntry} {fuel : Nat}

theorem Holds.precolateDown_stays (holds : Holds heap (last :: front))
    (stopped : heap.precolateDownLoop fuel 0 1 = .ok (heap, 0))
    (inOrder : HeapOrdered (expireOf (last :: front)) (last :: front).length) :
    ∃ heap' contents', heap.precolateDown fuel 0 = .ok heap' ∧ MinHeap heap' contents' ∧
      contents'.Perm (last :: front) ∧ heap'.timers = heap.timers := by
  have done := holds.occupied.precolateDown_stops (rfl : (last :: front)[0]? = some last)
    (by simp) stopped
  exact ⟨heap, last :: front, done, ⟨holds, inOrder⟩, List.Perm.refl _, rfl⟩

/-- One level down, the comparison is with the timer that has moved up. -/
theorem Holds.precolateDownLoop_ends {contents : List HeapEntry} (holds : Holds heap contents)
    {moved : TimeHeap γ υ} (size : moved.curSize = heap.curSize)
    (unmoved : ∀ i : Nat, i ≠ 0 → moved.expireAt i = heap.expireAt i) {child : Nat}
    (positive : child ≠ 0) (small : child ≤ 2) {entry : HeapEntry}
    (found : contents[child]? = some entry)
    (left : heap.ExpiresFrom (2 * child + 1) entry.expire)
    (right : 2 * child + 2 < contents.length → entry.expire ≤ expireOf contents (2 * child + 2)) :
    moved.precolateDownLoop (fuel + 1) child child = .ok (moved, (child : Int)) := by
  obtain ⟨first, readFirst, later⟩ := TimeHeap.expiresFrom_iff.mp left
  have curSize := holds.curSize
  have index : 2 * (child : Int) + 1 = ((2 * child + 1 : Nat) : Int) := by omega
  have index' : 2 * (child : Int) + 1 + 1 = ((2 * child + 2 : Nat) : Int) := by omega
  have readLeft : moved.expireAt (2 * (child : Int) + 1) = .ok first := by
    rw [index, unmoved _ (Nat.succ_ne_zero _), ← index]
    exact readFirst
  have readChild : moved.expireAt child = .ok entry.expire :=
    (unmoved child positive).trans (holds.expireAt_eq found)
  have inside : (child : Int) < moved.curSize := by
    have within := (List.getElem?_eq_some_iff.mp found).1
    omega
  obtain ⟨single, both⟩ := TimeHeap.lesserChild_eq (by omega) (by omega) readLeft
  by_cases more : 2 * (child : Int) + 1 < moved.curSize - 1
  · have within : 2 * child + 2 < contents.length := by omega
    have foundRight := List.getElem?_eq_getElem within
    have readRight : moved.expireAt (2 * (child : Int) + 1 + 1) =
        .ok (expireOf contents (2 * child + 2)) := by
      rw [index', unmoved _ (by omega), expireOf_eq foundRight]
      exact holds.expireAt_eq foundRight
    have chosen := both _ more readRight
    by_cases less : first > expireOf contents (2 * child + 2)
    · rw [if_pos less] at chosen
      exact TimeHeap.precolateDownLoop_stops fuel inside chosen readChild readRight (right within)
    · rw [if_neg less] at chosen
      exact TimeHeap.precolateDownLoop_stops fuel inside chosen readChild readLeft later
  · exact TimeHeap.precolateDownLoop_stops fuel inside (single more) readChild readLeft later

/-- The timer of the root moves down by one level. -/
theorem Holds.precolateDown_moves (holds : Holds heap (last :: front)) {index : Nat}
    {entry : HeapEntry} (found : front[index]? = some entry) (small : index ≤ 1)
    (choice : heap.lesserChild 0 = .ok ((index + 1 : Nat) : Int)) (earlier : entry.expire < last.expire)
    (left : heap.ExpiresFrom (2 * ((index + 1 : Nat) : Int) + 1) entry.expire)
    (right : 2 * (index + 1) + 2 < (last :: front).length →
      entry.expire ≤ expireOf (last :: front) (2 * (index + 1) + 2))
    (inOrder : HeapOrdered (expireOf (entry :: front.set index last)) (front.length + 1)) :
    ∃ heap' contents', heap.precolateDown (fuel + 2) 0 = .ok heap' ∧ MinHeap heap' contents' ∧
      contents'.Perm (last :: front) ∧ heap'.timers = heap.timers := by
  obtain ⟨cells, block, -, -⟩ := holds.block
  have foundRoot : (last :: front)[0]? = some last := rfl
  have foundChild : (last :: front)[index + 1]? = some entry := found
  have inside : 2 * 0 + 1 < (last :: front).length := by
    have within := (List.getElem?_eq_some_iff.mp found).1
    simp only [List.length_cons]
    omega
  let moved := heap.setCell cells 0 (some entry.timer)
  have size : moved.curSize = heap.curSize := rfl
  have unmoved : ∀ i : Nat, i ≠ 0 → moved.expireAt i = heap.expireAt i := fun i notRoot =>
    TimeHeap.expireAt_setCell block notRoot
  have stopped : moved.precolateDownLoop (fuel + 1) (index + 1 : Nat) (index + 1 : Nat) =
      .ok (moved, ((index + 1 : Nat) : Int)) :=
    holds.precolateDownLoop_ends size unmoved (Nat.succ_ne_zero index) (Nat.succ_le_succ small)
      foundChild left right
  obtain ⟨heap', done, occupied, -, timers⟩ := holds.occupied.precolateDown_swaps (fuel + 1) block
    choice inside foundRoot foundChild earlier stopped
  have same := exchange_perm foundRoot foundChild
  refine ⟨heap', entry :: front.set index last, done, ⟨?_, by simpa using inOrder⟩, same, timers⟩
  exact { occupied with live := timers ▸ holds.live.perm same }

/-- `precolate_down` of a root whose children are in order otherwise. -/
theorem Holds.precolateDown_root (holds : Holds heap (last :: front)) {key : Nat → Int}
    (ordered : HeapOrdered key (front.length + 1))
    (same : ∀ i, i ≠ 0 → expireOf (last :: front) i = key i)
    (fits : front ≠ [] → RootFits heap last.expire) (enough : 2 ≤ fuel) :
    ∃ heap' contents', heap.precolateDown fuel 0 = .ok heap' ∧ MinHeap heap' contents' ∧
      contents'.Perm (last :: front) ∧ heap'.timers = heap.timers := by
  obtain ⟨fuel, rfl⟩ : ∃ smaller, fuel = smaller + 2 := ⟨fuel - 2, by omega⟩
  have curSize := holds.curSize
  cases front with
  | nil =>
      have single : heap.curSize = 1 := curSize
      apply holds.precolateDown_stays
      · unfold TimeHeap.precolateDownLoop
        rw [if_neg (by omega)]
        rfl
      · intro i positive within
        simp at within
        omega
  | cons second rest =>
      obtain ⟨child, choice, isChild, childInside, least⟩ :=
        holds.lesserChild_root (by simp : 2 ≤ (last :: second :: rest).length)
      obtain ⟨index, rfl⟩ : ∃ index, child = index + 1 := ⟨child - 1, by
        have positive := isChild.1
        omega⟩
      obtain ⟨entry, found⟩ : ∃ entry, (second :: rest)[index]? = some entry :=
        ⟨_, List.getElem?_eq_getElem (Nat.lt_of_succ_lt_succ childInside)⟩
      have foundChild : (last :: second :: rest)[index + 1]? = some entry := found
      have started : (1 : Int) < heap.curSize := by
        simp only [List.length_cons] at curSize
        omega
      have readRoot : heap.expireAt 0 = .ok last.expire :=
        holds.expireAt_eq (rfl : (last :: second :: rest)[0]? = some last)
      have readChild := holds.expireAt_eq foundChild
      have leastKey : ∀ i, IsChild i 0 → i < (second :: rest).length + 1 → entry.expire ≤ key i := by
        intro i isChildI insideI
        rw [← same i (Nat.ne_of_gt isChildI.1), ← expireOf_eq foundChild]
        exact least i isChildI insideI
      by_cases later : last.expire ≤ entry.expire
      · apply holds.precolateDown_stays
        · exact TimeHeap.precolateDownLoop_stops (fuel + 1) started choice readRoot readChild later
        · apply ordered.replace_root same
          intro i isChildI insideI
          exact Int.le_trans later (leastKey i isChildI insideI)
      have earlier := Int.not_le.mp later
      obtain ⟨child', choice', outcome⟩ := fits (List.cons_ne_nil second rest)
      obtain rfl := Except.ok.inj (choice'.symm.trans choice)
      obtain ⟨⟨least', readLeast, left⟩, grandchildren⟩ := outcome.resolve_left fun stays => by
        obtain ⟨expire, read, bound⟩ := TimeHeap.expiresFrom_iff.mp stays
        obtain rfl := Except.ok.inj (readChild.symm.trans read)
        exact later bound
      obtain rfl := Except.ok.inj (readChild.symm.trans readLeast)
      have small : index ≤ 1 := by
        have cases := isChild_iff.mp isChild
        omega
      apply holds.precolateDown_moves found small choice earlier left
      · -- the other grandchild was below this child before
        intro inside
        have up := ordered (2 * (index + 1) + 2) (by omega) inside
        have parent : (2 * (index + 1) + 2 - 1) / 2 = index + 1 := by omega
        rw [parent, ← same _ (Nat.succ_ne_zero index), ← same _ (by omega),
          expireOf_eq foundChild] at up
        exact up
      · apply swapped_ordered ordered same found isChild leastKey (Int.le_of_lt earlier)
        intro i isGrandchild insideI
        apply (holds.expiresFrom_iff insideI).mp
        apply grandchildren
        · rcases isChild_iff.mp isGrandchild with rfl | rfl
          · simp
          · simp
        · rw [curSize]
          exact Int.ofNat_lt.mpr insideI

end Sift

namespace TimeHeap

variable {heap heap' : TimeHeap γ υ}

/-- The lesser child of the root depends on its two children only. -/
theorem lesserChild_congr (size : heap'.curSize = heap.curSize)
    (same : ∀ i : Nat, i ≠ 0 → (i : Int) < heap.curSize → heap'.expireAt i = heap.expireAt i) :
    heap'.lesserChild 0 = heap.lesserChild 0 := by
  unfold lesserChild
  rw [checkInt_eq_ok (by omega) (by omega)]
  simp only [ok_bind, size]
  by_cases both : (2 * 0 + 1 : Int) < heap.curSize - 1
  · have first : heap'.expireAt (2 * 0 + 1) = heap.expireAt (2 * 0 + 1) :=
      same 1 Nat.one_ne_zero (by omega)
    have second : heap'.expireAt (2 * 0 + 1 + 1) = heap.expireAt (2 * 0 + 1 + 1) :=
      same 2 (by omega) (by omega)
    simp only [if_pos both, first, second]
  · simp only [if_neg both]

/-- `pop_timer` up to the sift: the root is released, and `last` takes its place. -/
def uproot (heap : TimeHeap γ υ) (cells : Block) (root last : Addr) : TimeHeap γ υ :=
  { heap with
    curSize := heap.curSize - 1
    blocks := heap.blocks.write heap.array (cells.set 0 (some (some last)))
    timers := heap.timers.erase root }

theorem expireAt_uproot {cells : Block} (block : heap.blocks heap.array = some cells)
    {root last : Addr} {i : Nat} (notRoot : i ≠ 0) (kept : heap.entry i ≠ .ok (some root)) :
    (heap.uproot cells root last).expireAt i = heap.expireAt i := by
  have pointer : (heap.uproot cells root last).entry i = heap.entry i := by
    unfold entry loadCell uproot
    rw [Heap.load_some block, Heap.load_some (Heap.write_self _ _ _)]
    simp only [ok_bind, Int.toNat_natCast, List.getElem?_set_ne (Ne.symm notRoot)]
  unfold expireAt
  rw [pointer]
  cases read : heap.entry i with
  | error fault => rfl
  | ok pointer =>
      cases pointer with
      | none => rfl
      | some address =>
          have other : address ≠ root := fun same => kept (same ▸ read)
          simp only [ok_bind, uproot, Heap.load, Heap.erase_other _ other]

end TimeHeap

namespace Holds

variable {heap : TimeHeap γ υ} {first last : HeapEntry} {front : List HeapEntry}

theorem entry_ne_root (holds : Holds heap (first :: front)) {i : Nat} (notRoot : i ≠ 0)
    (inside : i < (first :: front).length) : heap.entry i ≠ .ok (some first.timer) := by
  obtain ⟨before, rfl⟩ : ∃ before, i = before + 1 := ⟨i - 1, by omega⟩
  have insideFront : before < front.length := by simpa using inside
  have found : front[before]? = some front[before] := List.getElem?_eq_getElem insideFront
  rw [holds.entry_eq found]
  intro same
  have equal := Option.some.inj (Except.ok.inj same)
  apply (List.nodup_cons.mp holds.live.distinct).1
  exact equal ▸ List.mem_map_of_mem (List.mem_of_getElem? found)

theorem uproot {cells : Block} (holds : Holds heap (first :: (front ++ [last])))
    (capacity : heap.capacity = cells.length)
    (points : Points cells (first :: (front ++ [last]))) :
    Holds (heap.uproot cells first.timer last.timer) (last :: front) := by
  have curSize := holds.curSize
  constructor
  · refine ⟨_, Heap.write_self _ _ _, by simpa [TimeHeap.uproot] using capacity, ?_⟩
    have shifted := (points.set (Nat.succ_pos _) last).dropLast
    rw [List.set_cons_zero, ← List.cons_append, List.dropLast_concat] at shifted
    exact shifted
  · simp only [TimeHeap.uproot, List.length_cons, List.length_append, List.length_nil] at curSize ⊢
    omega
  · exact holds.small
  · exact holds.live.erase.perm (List.perm_append_singleton last front).symm

/-- The condition before the root goes is the one that the sift asks for. -/
theorem rootFits {cells : Block} (holds : Holds heap (first :: (front ++ [last])))
    (block : heap.blocks heap.array = some cells) (capacity : heap.capacity = cells.length)
    (points : Points cells (first :: (front ++ [last]))) (started : front ≠ [])
    (fits : heap.PopFits) :
    RootFits (heap.uproot cells first.timer last.timer) last.expire := by
  have curSize := holds.curSize
  have positive := List.length_pos_iff.mpr started
  have kept : ∀ i : Nat, i ≠ 0 → i < front.length + 1 →
      (heap.uproot cells first.timer last.timer).expireAt i = heap.expireAt i :=
    fun i notRoot inside => TimeHeap.expireAt_uproot block notRoot
      (holds.entry_ne_root notRoot (by simp; omega))
  have readLast : heap.expireAt (heap.curSize - 1) = .ok last.expire := by
    have index : heap.curSize - 1 = ((front.length + 1 : Nat) : Int) := by
      simp only [List.length_cons, List.length_append, List.length_nil] at curSize
      omega
    rw [index]
    exact holds.expireAt_eq (by simp)
  simp only [List.length_cons, List.length_append, List.length_nil] at curSize
  have choice : (heap.uproot cells first.timer last.timer).lesserChild 0 =
      TimeHeap.lesserChild { heap with curSize := heap.curSize - 1 } 0 :=
    TimeHeap.lesserChild_congr rfl fun i notRoot inside => kept i notRoot (by
      change (i : Int) < heap.curSize - 1 at inside
      omega)
  rcases fits with few | fits
  · omega
  · rw [readLast] at fits
    cases chosen : TimeHeap.lesserChild { heap with curSize := heap.curSize - 1 } 0 with
    | error fault => rw [chosen] at fits; exact fits.elim
    | ok child =>
        rw [chosen] at fits
        rw [chosen] at choice
        refine ⟨child, choice, ?_⟩
        obtain ⟨index, found, isChild, inside, -⟩ :=
          (holds.uproot capacity points).lesserChild_root (by simp; omega)
        obtain rfl : child = index := Except.ok.inj (choice.symm.trans found)
        have notRoot : index ≠ 0 := Nat.ne_of_gt isChild.1
        have readChild := kept index notRoot (by simpa using inside)
        rcases fits with stays | ⟨other, ⟨least, readLeast, below⟩, grandchildren⟩
        · left
          unfold TimeHeap.ExpiresFrom at stays ⊢
          rw [readChild]
          exact stays
        · right
          refine ⟨⟨least, readChild.trans readLeast, ?_⟩, ?_⟩
          · have root : heap.entry 0 = .ok (some first.timer) :=
              holds.entry_eq (rfl : (first :: (front ++ [last]))[0]? = some first)
            have left : (2 * (index : Int) + 1) = ((2 * index + 1 : Nat) : Int) := by omega
            rw [root, left] at other
            rw [left] at below ⊢
            unfold TimeHeap.ExpiresFrom at below ⊢
            rw [TimeHeap.expireAt_uproot block (Nat.succ_ne_zero _) other]
            exact below
          · intro grandchild member beyond
            change grandchild < heap.curSize - 1 at beyond
            have bound := grandchildren grandchild member beyond
            obtain ⟨place, rfl⟩ : ∃ place : Nat, grandchild = place := by
              apply Int.eq_ofNat_of_zero_le
              simp only [List.mem_cons, List.not_mem_nil, or_false] at member
              omega
            unfold TimeHeap.ExpiresFrom at bound ⊢
            rw [kept place _ (by omega)]
            · exact bound
            · simp only [List.mem_cons, List.not_mem_nil, or_false] at member
              omega

end Holds

namespace MinHeap

variable {heap : TimeHeap γ υ}

theorem popTimer_nil (minHeap : MinHeap heap []) (fuel : Nat) :
    heap.popTimer fuel = .ok heap := by
  have empty : heap.empty = true := decide_eq_true minHeap.holds.curSize
  unfold TimeHeap.popTimer
  rw [if_pos empty]
  rfl

/-- `pop_timer` before the sift. -/
theorem popTimer_eq {first : HeapEntry} {rest : List HeapEntry} {cells : Block}
    (holds : Holds heap (first :: rest)) (block : heap.blocks heap.array = some cells)
    {last : HeapEntry} (found : (first :: rest)[rest.length]? = some last) (fuel : Nat) :
    heap.popTimer fuel = (heap.uproot cells first.timer last.timer).precolateDown fuel 0 := by
  have curSize := holds.curSize
  simp only [List.length_cons] at curSize
  have started : ¬ heap.empty = true := by
    intro empty
    have noTimers : heap.curSize = 0 := of_decide_eq_true empty
    omega
  obtain ⟨node, live, -⟩ := holds.live.found (List.mem_cons_self (a := first))
  have pointer : heap.entry 0 = .ok (some first.timer) :=
    holds.entry_eq (rfl : (first :: rest)[0]? = some first)
  have index : heap.curSize - 1 = (rest.length : Int) := by omega
  have pointerLast := holds.entry_eq found
  rw [← index] at pointerLast
  have within : 0 < cells.length := by
    obtain ⟨cells', block', -, points⟩ := holds.block
    cases block.symm.trans block'
    exact Nat.lt_of_lt_of_le (Nat.succ_pos _) points.room
  let released : TimeHeap γ υ :=
    { heap with timers := heap.timers.erase first.timer, curSize := heap.curSize - 1 }
  have stored : released.storeEntry 0 (some last.timer) =
      .ok (heap.uproot cells first.timer last.timer) := by
    have released_block : released.blocks released.array = some cells := block
    exact released.storeEntry_eq released_block within _
  unfold TimeHeap.popTimer
  rw [if_neg started]
  simp only [pointer, ok_bind, Option.isSome_some, if_true, Heap.delete_some live]
  change (do
    let heap ← released.storeEntry 0 (← heap.entry (heap.curSize - 1))
    heap.precolateDown fuel 0) = _
  rw [pointerLast, ok_bind, stored, ok_bind]

/-- The only timer leaves, and its pointer stays in the array. -/
theorem popTimer_single {only : HeapEntry} {cells : Block} (holds : Holds heap [only])
    (block : heap.blocks heap.array = some cells) (fuel : Nat) :
    heap.popTimer fuel = .ok (heap.uproot cells only.timer only.timer) := by
  rw [popTimer_eq holds block (rfl : [only][0]? = some only)]
  have curSize : heap.curSize = 1 := holds.curSize
  have outside : (0 : Int) < 0 ∨ 0 ≥ (heap.uproot cells only.timer only.timer).curSize := by
    right
    simp [TimeHeap.uproot, curSize]
  unfold TimeHeap.precolateDown
  rw [if_pos outside]
  rfl

theorem popTimer_spec {first : HeapEntry} {rest : List HeapEntry}
    (minHeap : MinHeap heap (first :: rest)) (fits : heap.PopFits) {fuel : Nat}
    (enough : 2 ≤ fuel) :
    ∃ heap' contents', heap.popTimer fuel = .ok heap' ∧ MinHeap heap' contents' ∧
      contents'.Perm rest ∧ heap'.timers = heap.timers.erase first.timer := by
  have holds := minHeap.holds
  obtain ⟨cells, block, capacity, points⟩ := holds.block
  rcases List.eq_nil_or_concat rest with rfl | ⟨front, last, rfl⟩
  · have curSize : heap.curSize = 1 := holds.curSize
    refine ⟨heap.uproot cells first.timer first.timer, [], popTimer_single holds block fuel,
      ⟨⟨?_, ?_, holds.small, ?_⟩, ?_⟩, List.Perm.refl _, rfl⟩
    · refine ⟨_, Heap.write_self _ _ _, by simpa [TimeHeap.uproot] using capacity, ?_, ?_⟩
      · exact Nat.zero_le _
      · intro i entry found
        simp at found
    · simp [TimeHeap.uproot, curSize]
    · exact ⟨by simp, by simp⟩
    · intro i positive inside
      exact absurd inside (Nat.not_lt_zero i)
  · rw [List.concat_eq_append] at *
    have ordered : HeapOrdered (expireOf (first :: front)) (front.length + 1) := by
      apply (minHeap.ordered.mono (by simp)).congr
      intro i inside
      unfold expireOf
      rw [← List.cons_append, List.getElem?_append_left (by simpa using inside)]
    obtain ⟨heap', contents', done, minHeap', perm, timers⟩ :=
      (holds.uproot capacity points).precolateDown_root ordered
        (fun i notRoot => by
          obtain ⟨before, rfl⟩ : ∃ before, i = before + 1 := ⟨i - 1, by omega⟩
          rfl)
        (fun started => holds.rootFits block capacity points started fits) enough
    refine ⟨heap', contents', ?_, minHeap', ?_, timers⟩
    · have found : (first :: (front ++ [last]))[(front ++ [last]).length]? = some last := by simp
      rw [popTimer_eq holds block found]
      exact done
    · exact perm.trans (List.perm_append_singleton last front).symm

end MinHeap

end HPLinuxServer.Timer
