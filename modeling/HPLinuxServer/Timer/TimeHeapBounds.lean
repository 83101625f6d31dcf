import HPLinuxServer.Timer.TimeHeapConstruction
import Mathlib.Logic.Relation

/-!
# The entries that a sift of the time heap uses

The loop of `precolate_down` compares the child of the round before with `cur_size`, which is
where the timer has got to, and then looks at the first child of that. So it keeps to the
heap as long as every entry that it moves up has a child.
-/

set_option autoImplicit false

namespace HPLinuxServer.Timer

open Memory Scheduling

variable {γ υ : Type}

namespace TimeHeap

/-- The heap with an array of `cur_size` entries, so that any other one is outside of it. -/
def cut (heap : TimeHeap γ υ) : TimeHeap γ υ :=
  { heap with
    capacity := heap.curSize
    blocks := fun address =>
      if address = heap.array then (heap.blocks address).map (·.take heap.curSize.toNat)
      else heap.blocks address }

/-- `precolate_down` returns, also where there is nothing behind the first `cur_size` entries. -/
def KeepsInside (heap : TimeHeap γ υ) (pos : Int) : Prop :=
  (∃ fuel after, heap.precolateDown fuel pos = .ok after) ∧
    ∃ fuel after, heap.cut.precolateDown fuel pos = .ok after

/-- No timer is behind the given number of entries: they are null, or not allocated. -/
def Vacant (heap : TimeHeap γ υ) (size : Nat) : Prop :=
  ∀ i : Nat, size ≤ i → ∀ timer, heap.entry i ≠ .ok (some timer)

theorem Vacant.unread {heap : TimeHeap γ υ} {size i : Nat} (vacant : heap.Vacant size)
    (behind : size ≤ i) : ∃ fault, heap.expireAt i = .error fault := by
  unfold expireAt
  cases read : heap.entry i with
  | error fault => exact ⟨fault, rfl⟩
  | ok pointer =>
      cases pointer with
      | none => exact ⟨.nullDereference, rfl⟩
      | some timer => exact absurd read (vacant i behind timer)

theorem Vacant.setCell {heap : TimeHeap γ υ} {size i : Nat} {cells : Block}
    (vacant : heap.Vacant size) (block : heap.blocks heap.array = some cells) (inside : i < size)
    (pointer : Ptr) : (heap.setCell cells i pointer).Vacant size := by
  intro j behind timer
  rw [entry_setCell block (by omega)]
  exact vacant j behind timer

end TimeHeap

/-- Every position that a timer at `pos` gets to has a child; outside of the heap nothing
is done. -/
def SinksInside (key : Nat → Int) (size : Nat) (pos : Int) : Prop :=
  pos < 0 ∨ size ≤ pos ∨ 2 * pos + 1 ≤ 2147483647 ∧
    ∀ next, Relation.TransGen (Sinks key size) pos.toNat next → 2 * next + 1 < size

namespace Occupied

variable {heap : TimeHeap γ υ} {contents : List HeapEntry} {key : Nat → Int} {pos : Nat}

/-- Behind the position at which the loop is, nothing has changed yet. -/
def Unchanged (key : Nat → Int) (contents : List HeapEntry) (pos : Nat) : Prop :=
  ∀ i, pos ≤ i → expireOf contents i = key i

theorem Unchanged.lesser_eq {contents : List HeapEntry} (same : Unchanged key contents pos)
    (size : Nat) : lesser (expireOf contents) size pos = lesser key size pos :=
  lesser_congr fun i below => same i (Nat.le_of_lt below)

theorem Unchanged.set {contents : List HeapEntry} (same : Unchanged key contents pos)
    {child : Nat} (lower : pos < child) (entry : HeapEntry) :
    Unchanged key (contents.set pos entry) child := by
  intro i below
  rw [expireOf_set_ne (by omega)]
  exact same i (by omega)

/-- A round at a position with a child that is not less: the loop ends. -/
theorem precolateDownLoop_ends (occupied : Occupied heap contents)
    (same : Unchanged key contents pos) (inner : 2 * pos + 1 < contents.length) (fuel : Nat)
    {child : Int} (started : child < heap.curSize)
    (rests : ¬ Sinks key contents.length pos (lesser key contents.length pos)) :
    heap.precolateDownLoop (fuel + 1) pos child = .ok (heap, (pos : Int)) := by
  apply occupied.precolateDownLoop_rests fuel inner started
  have lower := (lesser_isChild key contents.length pos).lt
  rw [same.lesser_eq, same pos (Nat.le_refl pos), same _ (Nat.le_of_lt lower)]
  exact Int.not_lt.mp fun less => rests ⟨inner, rfl, less⟩

/-- A round at a position with a lesser child: that moves up, and the loop goes on there. -/
theorem precolateDownLoop_sinks (occupied : Occupied heap contents)
    (same : Unchanged key contents pos) (fuel : Nat) {child : Int}
    (started : child < heap.curSize) {next : Nat} (sinks : Sinks key contents.length pos next) :
    ∃ cells below, heap.blocks heap.array = some cells ∧
      heap.precolateDownLoop (fuel + 1) pos child =
        (heap.setCell cells pos (some below.timer)).precolateDownLoop fuel next next ∧
      Occupied (heap.setCell cells pos (some below.timer)) (contents.set pos below) ∧
      Unchanged key (contents.set pos below) next := by
  obtain ⟨inner, rfl, less⟩ := sinks
  obtain ⟨cells, block, -, points⟩ := occupied.block
  have lower := (lesser_isChild key contents.length pos).lt
  have inside : lesser key contents.length pos < contents.length := lesser_lt inner
  have choice := occupied.lesserChild_eq inner
  rw [same.lesser_eq] at choice
  have found := List.getElem?_eq_getElem inside
  have room := points.room
  rw [← same _ (Nat.le_of_lt lower), ← same pos (Nat.le_refl pos)] at less
  refine ⟨cells, _, block, ?_, occupied.lowered block (by omega) found, same.set lower _⟩
  exact TimeHeap.precolateDownLoop_moves fuel started choice
    (occupied.expireAt_expireOf (by omega)) (occupied.expireAt_expireOf inside) less
    (occupied.entry_eq found) (TimeHeap.storeEntry_eq block (by omega) _)

/-- If every position from `pos` on that the timer gets to has a child, the loop ends, within
as many rounds as there are positions left. -/
theorem precolateDownLoop_returns (fuel : Nat) {heap : TimeHeap γ υ}
    {contents : List HeapEntry} {pos : Nat} (occupied : Occupied heap contents)
    (same : Unchanged key contents pos)
    (inner : ∀ next, Relation.ReflTransGen (Sinks key contents.length) pos next →
      2 * next + 1 < contents.length)
    (enough : contents.length ≤ pos + fuel) {child : Int} (started : child < heap.curSize) :
    ∃ heap' contents' last, heap.precolateDownLoop fuel pos child = .ok (heap', (last : Nat)) ∧
      Occupied heap' contents' ∧ last < contents'.length := by
  have here := inner pos .refl
  induction fuel generalizing heap contents pos child with
  | zero => omega
  | succ fuel ih =>
      by_cases sinks : Sinks key contents.length pos (lesser key contents.length pos)
      · obtain ⟨cells, below, block, round, moved, unchanged⟩ :=
          occupied.precolateDownLoop_sinks same fuel started sinks
        have lower := (lesser_isChild key contents.length pos).lt
        have inside : lesser key contents.length pos < contents.length := lesser_lt here
        have length : (contents.set pos below).length = contents.length := List.length_set
        have below' : ∀ next, Relation.ReflTransGen (Sinks key (contents.set pos below).length)
            (lesser key contents.length pos) next → 2 * next + 1 < (contents.set pos below).length := by
          rw [length]
          exact fun next path => inner next (.head sinks path)
        have further : ((lesser key contents.length pos : Nat) : Int) <
            (heap.setCell cells pos (some below.timer)).curSize := by
          rw [moved.curSize, length]
          omega
        rw [round]
        exact ih moved unchanged below' (by omega) further (below' _ .refl)
      · exact ⟨heap, contents, pos, occupied.precolateDownLoop_ends same here fuel started sinks,
          occupied, by omega⟩

theorem precolateDownLoop_faults (fuel : Nat) {heap : TimeHeap γ υ}
    {contents : List HeapEntry} {pos leaf : Nat} (occupied : Occupied heap contents)
    (vacant : heap.Vacant contents.length) (same : Unchanged key contents pos)
    (path : Relation.ReflTransGen (Sinks key contents.length) pos leaf)
    (outside : contents.length ≤ 2 * leaf + 1) (inside : pos < contents.length) {child : Int}
    (started : child < heap.curSize) :
    ∃ fault, heap.precolateDownLoop fuel pos child = .error fault := by
  induction fuel generalizing heap contents pos child with
  | zero =>
      unfold TimeHeap.precolateDownLoop
      rw [if_pos started]
      exact ⟨_, rfl⟩
  | succ fuel ih =>
      rcases path.cases_head with rfl | ⟨next, sinks, rest⟩
      · obtain ⟨fault, unread⟩ := vacant.unread outside
        have index : ((2 * pos + 1 : Nat) : Int) = 2 * (pos : Int) + 1 := by omega
        rw [index] at unread
        have curSize := occupied.curSize
        exact TimeHeap.precolateDownLoop_unread fuel started (by omega) unread
      · obtain ⟨cells, below, block, round, moved, unchanged⟩ :=
          occupied.precolateDownLoop_sinks same fuel started sinks
        have length : (contents.set pos below).length = contents.length := List.length_set
        have within : next < contents.length := sinks.2.1 ▸ lesser_lt sinks.1
        have further : (next : Int) < (heap.setCell cells pos (some below.timer)).curSize := by
          rw [moved.curSize, length]
          omega
        rw [round]
        exact ih moved (length ▸ vacant.setCell block inside _) unchanged (length ▸ rest)
          (length ▸ outside) (length ▸ within) further

theorem store_returns {contents' : List HeapEntry} {heap' : TimeHeap γ υ} {last : Nat}
    (occupied : Occupied heap' contents') (inside : last < contents'.length) (pointer : Ptr) :
    ∃ after, heap'.storeEntry last pointer = .ok after := by
  obtain ⟨cells, block, -, points⟩ := occupied.block
  exact ⟨_, TimeHeap.storeEntry_eq block (Nat.lt_of_lt_of_le inside points.room) pointer⟩

theorem precolateDown_returns_iff (occupied : Occupied heap contents)
    (vacant : heap.Vacant contents.length) (pos : Int) :
    (∃ fuel after, heap.precolateDown fuel pos = .ok after) ↔
      SinksInside (expireOf contents) contents.length pos := by
  have curSize := occupied.curSize
  have same : Unchanged (expireOf contents) contents pos.toNat := fun _ _ => rfl
  unfold SinksInside
  by_cases outside : pos < 0 ∨ pos ≥ heap.curSize
  · refine iff_of_true ⟨0, heap, ?_⟩ (by omega)
    unfold TimeHeap.precolateDown
    rw [if_pos outside]
    rfl
  obtain ⟨place, rfl⟩ : ∃ place : Nat, pos = place := ⟨pos.toNat, by omega⟩
  have inside : place < contents.length := by omega
  have found := List.getElem?_eq_getElem inside
  rw [or_iff_right (by omega), or_iff_right (by omega)]
  by_cases small : 2 * (place : Int) + 1 ≤ 2147483647
  case neg =>
    refine iff_of_false ?_ fun sinks => small sinks.1
    rintro ⟨fuel, after, returned⟩
    have overflow : checkInt (2 * (place : Int) + 1) = .error .signedOverflow :=
      if_neg fun range => small range.2
    unfold TimeHeap.precolateDown at returned
    rw [if_neg outside, occupied.entry_eq found, ok_bind, overflow] at returned
    cases returned
  rw [and_iff_right small, Int.toNat_natCast]
  by_cases leaf : contents.length ≤ 2 * place + 1
  · -- the loop is not entered
    have stays : ∀ next, ¬ Relation.TransGen (Sinks (expireOf contents) contents.length) place next := by
      intro next path
      obtain ⟨first, sinks, -⟩ := Relation.TransGen.head'_iff.mp path
      exact absurd sinks.1 (Nat.not_lt.mpr leaf)
    have stopped : heap.precolateDownLoop 0 place (2 * place + 1) = .ok (heap, (place : Int)) := by
      unfold TimeHeap.precolateDownLoop
      rw [if_neg (by omega)]
      rfl
    obtain ⟨after, stored⟩ := occupied.store_returns inside (some contents[place].timer)
    refine iff_of_true ⟨0, after, ?_⟩ fun next path => absurd path (stays next)
    rw [occupied.precolateDown_small 0 found small, stopped]
    exact stored
  have started : 2 * (place : Int) + 1 < heap.curSize := by omega
  constructor
  · rintro ⟨fuel, after, returned⟩ next path
    by_contra beyond
    obtain ⟨fault, failed⟩ := occupied.precolateDownLoop_faults fuel vacant same path.to_reflTransGen
      (Nat.not_lt.mp beyond) inside started
    rw [Int.toNat_natCast] at failed
    rw [occupied.precolateDown_small fuel found small, failed] at returned
    cases returned
  · intro inner
    have all : ∀ next, Relation.ReflTransGen (Sinks (expireOf contents) contents.length) place next →
        2 * next + 1 < contents.length := by
      intro next path
      rcases Relation.reflTransGen_iff_eq_or_transGen.mp path with rfl | further
      · omega
      · exact inner next further
    obtain ⟨heap', contents', last, looped, occupied', within⟩ :=
      occupied.precolateDownLoop_returns contents.length same all (Nat.le_add_left _ _) started
    obtain ⟨after, stored⟩ := occupied'.store_returns within (some contents[place].timer)
    refine ⟨contents.length, after, ?_⟩
    rw [Int.toNat_natCast] at looped
    rw [occupied.precolateDown_small _ found small, looped]
    exact stored

theorem cut_block {cells : Block} (occupied : Occupied heap contents)
    (block : heap.blocks heap.array = some cells) :
    heap.cut.blocks heap.cut.array = some (cells.take contents.length) := by
  have curSize := occupied.curSize
  unfold TimeHeap.cut
  dsimp only
  rw [if_pos rfl, block, curSize]
  rfl

theorem cut (occupied : Occupied heap contents) : Occupied heap.cut contents := by
  obtain ⟨cells, block, capacity, points⟩ := occupied.block
  have room := points.room
  have curSize := occupied.curSize
  have small := occupied.small
  have taken : (cells.take contents.length).length = contents.length := by
    rw [List.length_take, Nat.min_eq_left room]
  have limit : heap.cut.capacity = heap.curSize := rfl
  refine ⟨⟨_, occupied.cut_block block, by omega, Nat.le_of_eq taken.symm, ?_⟩, curSize, by omega,
    occupied.stored⟩
  intro i entry found
  rw [List.getElem?_take_of_lt (List.getElem?_eq_some_iff.mp found).1]
  exact points.pointers i entry found

theorem vacant_cut (occupied : Occupied heap contents) : heap.cut.Vacant contents.length := by
  obtain ⟨cells, block, -, points⟩ := occupied.block
  intro i behind timer read
  have beyond : (cells.take contents.length)[i]? = none :=
    List.getElem?_eq_none (Nat.le_trans (List.length_take_le _ _) behind)
  unfold TimeHeap.entry TimeHeap.loadCell at read
  rw [Heap.load_some (occupied.cut_block block), ok_bind, Int.toNat_natCast, beyond,
    if_neg (by omega)] at read
  exact nomatch read

end Occupied

/-- `precolate_down` returns and uses no entry behind the first `cur_size` ones exactly if
every position that the timer gets to has a child. -/
theorem timeHeap_precolateDown_iff {heap : TimeHeap γ υ} {contents : List HeapEntry}
    (occupied : Occupied heap contents) (vacant : heap.Vacant contents.length) (pos : Int) :
    heap.KeepsInside pos ↔ SinksInside (expireOf contents) contents.length pos := by
  unfold TimeHeap.KeepsInside
  rw [occupied.precolateDown_returns_iff vacant,
    occupied.cut.precolateDown_returns_iff occupied.vacant_cut, and_self_iff]

/-- The first of four timers expires behind its children, and before the last one. -/
def sinksOnce : TimeHeap Unit Unit :=
  { array := 0, capacity := 5, curSize := 4
    blocks := Heap.empty.write 0 [some (some 1), some (some 2), some (some 3), some (some 4),
      some none]
    timers := (((Heap.empty.write 1 ⟨5, none, ()⟩).write 2 ⟨3, none, ()⟩).write 3
      ⟨4, none, ()⟩).write 4 ⟨9, none, ()⟩ }

theorem sinksOnce_occupied : Occupied sinksOnce [⟨1, 5⟩, ⟨2, 3⟩, ⟨3, 4⟩, ⟨4, 9⟩] where
  block := by
    refine ⟨[some (some 1), some (some 2), some (some 3), some (some 4), some none], rfl, rfl,
      by decide, ?_⟩
    intro i entry found
    match i, found with
    | 0, found => cases found; rfl
    | 1, found => cases found; rfl
    | 2, found => cases found; rfl
    | 3, found => cases found; rfl
  curSize := rfl
  small := by decide
  stored := by decide

theorem sinksOnce_vacant : sinksOnce.Vacant 4 := by
  intro i behind timer
  match i, behind with
  | 4, _ => exact nofun
  | i + 5, _ =>
      have beyond : sinksOnce.entry ((i + 5 : Nat) : Int) = .error .outOfBounds := rfl
      rw [beyond]
      exact nofun

theorem timeHeap_precolateDown_iff_sinksOnce :
    sinksOnce.KeepsInside 0 ↔
      SinksInside (expireOf [⟨1, 5⟩, ⟨2, 3⟩, ⟨3, 4⟩, ⟨4, 9⟩]) 4 0 :=
  timeHeap_precolateDown_iff sinksOnce_occupied sinksOnce_vacant 0

-- the timer at the front sinks to position 1 and stays there, in front of position 3
example : sinksOnce.KeepsInside 0 := ⟨⟨2, _, rfl⟩, ⟨2, _, rfl⟩⟩

/-- Two timers in an array of four entries, the later one in front. -/
def laterFirst : TimeHeap Unit Unit :=
  { array := 0, capacity := 4, curSize := 2
    blocks := Heap.empty.write 0 [some (some 1), some (some 2), some none, some none]
    timers := (Heap.empty.write 1 ⟨5, none, ()⟩).write 2 ⟨3, none, ()⟩ }

theorem laterFirst_occupied : Occupied laterFirst [⟨1, 5⟩, ⟨2, 3⟩] where
  block := by
    refine ⟨[some (some 1), some (some 2), some none, some none], rfl, rfl, by decide, ?_⟩
    intro i entry found
    match i, found with
    | 0, found => cases found; rfl
    | 1, found => cases found; rfl
  curSize := rfl
  small := by decide
  stored := by decide

theorem laterFirst_vacant : laterFirst.Vacant 2 := by
  intro i behind timer
  match i, behind with
  | 2, _ => exact nofun
  | 3, _ => exact nofun
  | i + 4, _ =>
      have beyond : laterFirst.entry ((i + 4 : Nat) : Int) = .error .outOfBounds := rfl
      rw [beyond]
      exact nofun

/-- The lesser child of the root moves up, and has no children. -/
theorem timeHeap_precolateDown_leaves :
    ¬∀ (heap : TimeHeap Unit Unit) (contents : List HeapEntry), Occupied heap contents →
      heap.Vacant contents.length → ∀ pos, heap.KeepsInside pos := by
  intro claimed
  have returns := (claimed laterFirst _ laterFirst_occupied laterFirst_vacant 0).1
  have sinks := (laterFirst_occupied.precolateDown_returns_iff laterFirst_vacant 0).mp returns
  rcases sinks with before | behind | ⟨-, inner⟩
  · exact absurd before (by decide)
  · exact absurd behind (by decide)
  · exact absurd (inner 1 (.single ⟨by decide, by decide, by decide⟩)) (by decide)

end HPLinuxServer.Timer
