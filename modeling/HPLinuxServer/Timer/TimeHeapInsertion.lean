import HPLinuxServer.Timer.TimeHeapEntries

/-!
# Whether `add_timer` returns

The position that its loop compares with depends on the size of the heap and not on
the hole. If the first round moves the hole there, every later round finds the same
two timers and changes nothing; only at the root there is no later round.
-/

set_option autoImplicit false

namespace HPLinuxServer.Timer

open Memory Scheduling

variable {γ υ : Type}

namespace TimeHeap

/-! ## Rounds of the loop -/

/-- The guard and the body of the loop of `add_timer`; nothing if the loop ends. -/
def addTimerRound (heap : TimeHeap γ υ) (timer : Ptr) (hole : Int) :
    Except Fault (Option (TimeHeap γ υ × Int)) := do
  if hole > 0 then
    let parent := (heap.curSize - 1).tdiv 2
    if (← heap.expireAt parent) > (← heap.timers.load timer).expire then
      let heap ← heap.storeEntry hole (← heap.entry parent)
      return some (heap, parent)
    else
      return none
  else
    return none

/-- The states of the loop, from its first one on. -/
inductive SiftReaches (timer : Ptr) : TimeHeap γ υ × Int → TimeHeap γ υ × Int → Prop where
  | start (state : TimeHeap γ υ × Int) : SiftReaches timer state state
  | round {state next : TimeHeap γ υ × Int} {heap : TimeHeap γ υ} {hole : Int}
      (before : SiftReaches timer state (heap, hole))
      (moves : heap.addTimerRound timer hole = .ok (some next)) : SiftReaches timer state next

/-- From this state on, every round that does not end the loop lowers the hole. -/
def SiftLowers (timer : Ptr) (state : TimeHeap γ υ × Int) : Prop :=
  ∀ heap hole next, SiftReaches timer state (heap, hole) →
    heap.addTimerRound timer hole = .ok (some next) → next.2 < hole

/-- `add_timer` once there is room: the new timer is counted. -/
def counted (heap : TimeHeap γ υ) : TimeHeap γ υ := { heap with curSize := heap.curSize + 1 }

@[simp] theorem counted_curSize (heap : TimeHeap γ υ) :
    heap.counted.curSize = heap.curSize + 1 := rfl

@[simp] theorem counted_capacity (heap : TimeHeap γ υ) :
    heap.counted.capacity = heap.capacity := rfl

/-- Every round lowers the hole, and `add_timer` returns after at most `cur_size` rounds. -/
structure SiftTerminates (heap : TimeHeap γ υ) (timer : Ptr) (newArray : Addr) : Prop where
  lowers : SiftLowers timer (heap.counted, heap.curSize)
  returns : ∃ heap', heap.addTimer heap.curSize.toNat timer newArray = .ok heap'

section Rounds

variable {heap : TimeHeap γ υ} {timer : Ptr} {hole : Int}

theorem addTimerLoop_round (fuel : Nat) :
    addTimerLoop (fuel + 1) heap timer hole = (do
      match ← heap.addTimerRound timer hole with
      | none => return (heap, hole)
      | some (heap, hole) => addTimerLoop fuel heap timer hole) := by
  rw [addTimerLoop]
  unfold addTimerRound
  by_cases positive : hole > 0
  · rw [if_pos positive, if_pos positive]
    dsimp only
    cases heap.expireAt ((heap.curSize - 1).tdiv 2) with
    | error fault => rfl
    | ok expire =>
        cases heap.timers.load timer with
        | error fault => rfl
        | ok node =>
            by_cases later : expire > node.expire
            · simp only [ok_bind, if_pos later]
              cases heap.entry ((heap.curSize - 1).tdiv 2) with
              | error fault => rfl
              | ok pointer =>
                  simp only [ok_bind]
                  cases heap.storeEntry hole pointer with
                  | error fault => rfl
                  | ok moved => rfl
            · simp only [ok_bind, if_neg later]
              rfl
  · rw [if_neg positive, if_neg positive]
    rfl

theorem addTimerRound_root (top : hole ≤ 0) : heap.addTimerRound timer hole = .ok none := by
  unfold addTimerRound
  rw [if_neg (by omega)]
  rfl

theorem addTimerLoop_root (fuel : Nat) (top : hole ≤ 0) :
    addTimerLoop fuel heap timer hole = .ok (heap, hole) := by
  unfold addTimerLoop
  rw [if_neg (by omega)]
  rfl

theorem addTimerLoop_ends (fuel : Nat) (ends : heap.addTimerRound timer hole = .ok none) :
    addTimerLoop (fuel + 1) heap timer hole = .ok (heap, hole) := by
  rw [addTimerLoop_round, ends]
  rfl

theorem addTimerLoop_moves (fuel : Nat) {moved : TimeHeap γ υ} {parent : Int}
    (moves : heap.addTimerRound timer hole = .ok (some (moved, parent))) :
    addTimerLoop (fuel + 1) heap timer hole = addTimerLoop fuel moved timer parent := by
  rw [addTimerLoop_round, moves]
  rfl

/-- A round that changes nothing is repeated for ever. -/
theorem addTimerLoop_stuck (positive : 0 < hole)
    (stuck : heap.addTimerRound timer hole = .ok (some (heap, hole))) (fuel : Nat) :
    addTimerLoop fuel heap timer hole = .error .outOfFuel := by
  induction fuel with
  | zero =>
      unfold addTimerLoop
      rw [if_pos positive]
  | succ fuel ih =>
      rw [addTimerLoop_moves fuel stuck]
      exact ih

theorem SiftReaches.head {state final : TimeHeap γ υ × Int} (reaches : SiftReaches timer state final) :
    final = state ∨ ∃ next, state.1.addTimerRound timer state.2 = .ok (some next) ∧
      SiftReaches timer next final := by
  induction reaches with
  | start => exact .inl rfl
  | round before moves ih =>
      right
      rcases ih with rfl | ⟨next, first, later⟩
      · exact ⟨_, moves, .start _⟩
      · exact ⟨next, first, later.round moves⟩

theorem SiftLowers.of_ends (ends : heap.addTimerRound timer hole = .ok none) :
    SiftLowers timer (heap, hole) := by
  intro reached place next reaches moves
  rcases reaches.head with same | ⟨other, first, -⟩
  · cases same
    rw [ends] at moves
    cases moves
  · rw [ends] at first
    cases first

theorem SiftLowers.of_moves {moved : TimeHeap γ υ} {parent : Int}
    (moves : heap.addTimerRound timer hole = .ok (some (moved, parent))) (less : parent < hole)
    (later : SiftLowers timer (moved, parent)) : SiftLowers timer (heap, hole) := by
  intro reached place next reaches again
  rcases reaches.head with same | ⟨other, first, rest⟩
  · cases same
    rw [moves] at again
    cases again
    exact less
  · rw [moves] at first
    cases first
    exact later reached place next rest again

end Rounds

/-! ## The two rounds -/

section Comparison

variable {heap : TimeHeap γ υ} {cells : Block} {timer : Addr} {node : HeapTimer γ υ}
  {hole parent : Nat} {expire : Int} {pointer : Ptr}

theorem addTimerRound_eq (middle : (heap.curSize - 1).tdiv 2 = parent)
    (read : heap.expireAt parent = .ok expire) (pointed : heap.entry parent = .ok pointer)
    (live : heap.timers timer = some node) (block : heap.blocks heap.array = some cells)
    (positive : 0 < hole) (inside : hole < cells.length) :
    heap.addTimerRound (some timer) hole =
      .ok (if expire > node.expire then some (heap.setCell cells hole pointer, (parent : Int))
        else none) := by
  unfold addTimerRound
  rw [if_pos (by omega), middle]
  dsimp only
  rw [read, Heap.load_some live]
  simp only [ok_bind]
  by_cases later : expire > node.expire
  · rw [if_pos later, if_pos later, pointed, ok_bind, storeEntry_eq block inside]
    rfl
  · rw [if_neg later, if_neg later]
    rfl

end Comparison

end TimeHeap

theorem TimeHeap.addTimer_room {heap : TimeHeap γ υ} (fuel : Nat) {timer : Addr} {newArray : Addr}
    (room : heap.curSize < heap.capacity) (small : heap.capacity ≤ 2147483647)
    (low : 0 ≤ heap.curSize) :
    heap.addTimer fuel (some timer) newArray = (do
      let (heap, hole) ← addTimerLoop fuel { heap with curSize := heap.curSize + 1 } (some timer)
        heap.curSize
      heap.storeEntry hole (some timer)) := by
  have noGrowth : ¬ heap.curSize ≥ heap.capacity := by omega
  unfold TimeHeap.addTimer
  simp only [if_neg noGrowth, pure_eq_ok, ok_bind]
  rw [checkInt_eq_ok (by omega) (by omega)]
  rfl

namespace Occupied

variable {heap : TimeHeap γ υ} {contents : List HeapEntry} {cells : Block} {timer : Addr}
  {node : HeapTimer γ υ} {middle : HeapEntry}

theorem middle_eq (occupied : Occupied heap contents) :
    (heap.counted.curSize - 1).tdiv 2 = ((contents.length / 2 : Nat) : Int) := by
  have same : heap.counted.curSize - 1 = heap.curSize := by
    rw [TimeHeap.counted_curSize]
    omega
  rw [same, occupied.curSize, Int.tdiv_eq_ediv_of_nonneg (by omega)]
  rfl

/-- The first round compares with the timer in the middle of the array. -/
theorem round_first (occupied : Occupied heap contents)
    (block : heap.blocks heap.array = some cells) (room : contents.length < cells.length)
    (live : heap.timers timer = some node) (found : contents[contents.length / 2]? = some middle) :
    heap.counted.addTimerRound (some timer) (contents.length : Int) =
      .ok (if middle.expire > node.expire then
          some (heap.counted.setCell cells contents.length (some middle.timer),
            ((contents.length / 2 : Nat) : Int))
        else none) := by
  have started : 0 < contents.length :=
    Nat.zero_lt_of_lt (List.getElem?_eq_some_iff.mp found).1
  have read : heap.counted.expireAt ((contents.length / 2 : Nat) : Int) = .ok middle.expire :=
    occupied.expireAt_eq found
  have pointed : heap.counted.entry ((contents.length / 2 : Nat) : Int) = .ok (some middle.timer) :=
    occupied.entry_eq found
  exact TimeHeap.addTimerRound_eq occupied.middle_eq read pointed live block started room

/-- The second round has the hole at the timer that it compares with. -/
theorem round_second (occupied : Occupied heap contents)
    (block : heap.blocks heap.array = some cells) (points : Points cells contents)
    (live : heap.timers timer = some node)
    (found : contents[contents.length / 2]? = some middle) (many : 2 ≤ contents.length)
    (later : middle.expire > node.expire) :
    let moved := heap.counted.setCell cells contents.length (some middle.timer)
    moved.addTimerRound (some timer) ((contents.length / 2 : Nat) : Int) =
      .ok (some (moved, ((contents.length / 2 : Nat) : Int))) := by
  intro moved
  have apart : contents.length / 2 ≠ contents.length := by omega
  have counted : heap.counted.blocks heap.counted.array = some cells := block
  have read : moved.expireAt ((contents.length / 2 : Nat) : Int) = .ok middle.expire :=
    (TimeHeap.expireAt_setCell counted apart).trans (occupied.expireAt_eq found)
  have pointed : moved.entry ((contents.length / 2 : Nat) : Int) = .ok (some middle.timer) :=
    (TimeHeap.entry_setCell counted apart).trans (occupied.entry_eq found)
  have there : (cells.set contents.length (some (some middle.timer)))[contents.length / 2]? =
      some (some (some middle.timer)) := by
    rw [List.getElem?_set_ne (Ne.symm apart)]
    exact points.pointers _ _ found
  have block' : moved.blocks moved.array = some _ := TimeHeap.setCell_block
  have parent : (moved.curSize - 1).tdiv 2 = ((contents.length / 2 : Nat) : Int) :=
    occupied.middle_eq
  rw [TimeHeap.addTimerRound_eq parent read pointed live block' (by omega)
    (List.getElem?_eq_some_iff.mp there).1, if_pos later, TimeHeap.setCell_self block' there]

theorem addTimer_counted (occupied : Occupied heap contents)
    (room : heap.curSize < heap.capacity) (fuel : Nat) (newArray : Addr) :
    heap.addTimer fuel (some timer) newArray = (do
      let (heap, hole) ←
        TimeHeap.addTimerLoop fuel heap.counted (some timer) (contents.length : Int)
      heap.storeEntry hole (some timer)) := by
  have curSize := occupied.curSize
  rw [← curSize]
  exact TimeHeap.addTimer_room fuel room occupied.small (by omega)

theorem addTimer_of_loop (occupied : Occupied heap contents) (room : heap.curSize < heap.capacity)
    {ended : TimeHeap γ υ} {hole fuel : Nat}
    (looped : TimeHeap.addTimerLoop fuel heap.counted (some timer) (contents.length : Int) =
      .ok (ended, (hole : Int)))
    (block : ended.blocks ended.array = some cells) (inside : hole < cells.length)
    (newArray : Addr) :
    heap.addTimer fuel (some timer) newArray = .ok (ended.setCell cells hole (some timer)) := by
  rw [occupied.addTimer_counted room, looped]
  exact TimeHeap.storeEntry_eq block inside _

/-- A first round that ends the loop leaves the new timer behind the last one. -/
theorem siftTerminates_ends (occupied : Occupied heap contents)
    (block : heap.blocks heap.array = some cells) (room : contents.length < cells.length)
    (within : heap.curSize < heap.capacity) (started : contents ≠ [])
    (ends : heap.counted.addTimerRound (some timer) (contents.length : Int) = .ok none)
    (newArray : Addr) : heap.SiftTerminates (some timer) newArray := by
  have curSize := occupied.curSize
  constructor
  · rw [curSize]
    exact TimeHeap.SiftLowers.of_ends ends
  · have positive := List.length_pos_iff.mpr started
    obtain ⟨fuel, enough⟩ : ∃ fuel, heap.curSize.toNat = fuel + 1 :=
      ⟨heap.curSize.toNat - 1, by omega⟩
    rw [enough]
    exact ⟨_, occupied.addTimer_of_loop within (TimeHeap.addTimerLoop_ends fuel ends) block room
      newArray⟩

/-- If the timer in the middle expires later, the loop never ends. -/
theorem addTimer_hangs (occupied : Occupied heap contents) (room : heap.curSize < heap.capacity)
    (live : heap.timers timer = some node) (found : contents[contents.length / 2]? = some middle)
    (many : 2 ≤ contents.length) (later : middle.expire > node.expire) (fuel : Nat)
    (newArray : Addr) : heap.addTimer fuel (some timer) newArray = .error .outOfFuel := by
  obtain ⟨cells, block, capacity, points⟩ := occupied.block
  have curSize := occupied.curSize
  have first := occupied.round_first block (by omega) live found
  rw [if_pos later] at first
  have second := occupied.round_second block points live found many later
  have endless : TimeHeap.addTimerLoop fuel heap.counted (some timer) (contents.length : Int) =
      .error .outOfFuel := by
    cases fuel with
    | zero =>
        unfold TimeHeap.addTimerLoop
        rw [if_pos (by omega)]
    | succ fuel =>
        rw [TimeHeap.addTimerLoop_moves fuel first]
        exact TimeHeap.addTimerLoop_stuck (by omega) second fuel
  rw [occupied.addTimer_counted room, endless]
  rfl

end Occupied

/-- `add_timer` returns exactly if it finds at most one timer, or none in the middle of the
array that expires later than the new one. -/
theorem addTimer_terminates_iff {heap : TimeHeap γ υ} {contents : List HeapEntry}
    (occupied : Occupied heap contents) (room : heap.curSize < heap.capacity) {timer : Addr}
    {node : HeapTimer γ υ} (live : heap.timers timer = some node) (newArray : Addr) :
    heap.SiftTerminates (some timer) newArray ↔
      heap.curSize ≤ 1 ∨ heap.ExpiresBy (heap.curSize.tdiv 2) node.expire := by
  obtain ⟨cells, block, capacity, points⟩ := occupied.block
  have curSize := occupied.curSize
  have within : contents.length < cells.length := by omega
  have half : heap.curSize.tdiv 2 = ((contents.length / 2 : Nat) : Int) := by
    rw [curSize, Int.tdiv_eq_ediv_of_nonneg (by omega)]
    rfl
  rw [half]
  rcases List.eq_nil_or_concat contents with rfl | ⟨front, last, split⟩
  · -- the loop is not entered
    have empty : heap.curSize = 0 := curSize
    constructor
    · intro _
      left
      omega
    · intro _
      constructor
      · exact TimeHeap.SiftLowers.of_ends (TimeHeap.addTimerRound_root (by omega))
      · exact ⟨_, occupied.addTimer_of_loop room
          (TimeHeap.addTimerLoop_root _ (Int.le_refl 0)) block within newArray⟩
  · have positive : 0 < contents.length := by simp [split]
    have started : contents ≠ [] := List.length_pos_iff.mp positive
    have found := List.getElem?_eq_getElem (by omega : contents.length / 2 < contents.length)
    have first := occupied.round_first block within live found
    rw [occupied.expiresBy_iff (by omega), expireOf_eq found]
    constructor
    · intro terminates
      by_contra fails
      obtain ⟨many, later⟩ := not_or.mp fails
      obtain ⟨heap', returned⟩ := terminates.returns
      rw [occupied.addTimer_hangs room live found (by omega) (Int.not_le.mp later)] at returned
      cases returned
    · intro condition
      by_cases later : contents[contents.length / 2].expire > node.expire
      · -- the only timer moves down, and the hole is at the root
        have single : contents.length = 1 := by
          rcases condition with few | early
          · omega
          · omega
        have top : contents.length / 2 = 0 := by omega
        rw [if_pos later] at first
        constructor
        · rw [curSize]
          apply TimeHeap.SiftLowers.of_moves first (by omega)
          exact TimeHeap.SiftLowers.of_ends (TimeHeap.addTimerRound_root (by omega))
        · have one : heap.curSize.toNat = 0 + 1 := by omega
          rw [one]
          have looped := TimeHeap.addTimerLoop_moves 0 first
          rw [TimeHeap.addTimerLoop_root 0 (by omega)] at looped
          exact ⟨_, occupied.addTimer_of_loop room looped TimeHeap.setCell_block
            (by rw [List.length_set]; omega) newArray⟩
      · rw [if_neg later] at first
        exact occupied.siftTerminates_ends block within room started first newArray

/-- Two timers in order, and a third one that is to be added before both. -/
def twoTimers : TimeHeap Unit Unit :=
  { array := 0, capacity := 4, curSize := 2
    blocks := Heap.empty.write 0 [some (some 1), some (some 2), some none, some none]
    timers := ((Heap.empty.write 1 ⟨5, none, ()⟩).write 2 ⟨6, none, ()⟩).write 3 ⟨4, none, ()⟩ }

theorem twoTimers_occupied : Occupied twoTimers [⟨1, 5⟩, ⟨2, 6⟩] where
  block := by
    refine ⟨[some (some 1), some (some 2), some none, some none], rfl, rfl, by decide, ?_⟩
    intro i entry found
    match i, found with
    | 0, found => cases found; rfl
    | 1, found => cases found; rfl
  curSize := rfl
  small := by decide
  stored := by decide

theorem addTimer_terminates_iff_twoTimers :
    twoTimers.SiftTerminates (some 3) 9 ↔
      twoTimers.curSize ≤ 1 ∨ twoTimers.ExpiresBy (twoTimers.curSize.tdiv 2) 4 :=
  addTimer_terminates_iff twoTimers_occupied (by decide)
    (rfl : twoTimers.timers 3 = some ⟨4, none, ()⟩) 9

theorem addTimer_hangs_twoTimers :
    twoTimers.curSize < twoTimers.capacity ∧
      (∃ contents, Occupied twoTimers contents ∧
        HeapOrdered (expireOf contents) contents.length) ∧
      (∀ fuel, twoTimers.addTimer fuel (some 3) 9 = .error .outOfFuel) ∧
      ¬ twoTimers.SiftTerminates (some 3) 9 := by
  have hangs : ∀ fuel, twoTimers.addTimer fuel (some 3) 9 = .error .outOfFuel := fun fuel =>
    twoTimers_occupied.addTimer_hangs (by decide) (rfl : twoTimers.timers 3 = some ⟨4, none, ()⟩)
      rfl (by decide) (by decide) fuel 9
  refine ⟨by decide, ⟨_, twoTimers_occupied, ?_⟩, hangs, fun terminates => ?_⟩
  · intro i positive inside
    obtain rfl : i = 1 := by
      simp only [List.length_cons, List.length_nil] at inside
      omega
    decide
  · obtain ⟨heap', returned⟩ := terminates.returns
    rw [hangs] at returned
    cases returned

end HPLinuxServer.Timer
