import HPLinuxServer.Timer.TimeHeapInsertion
import HPLinuxServer.Timer.TimeHeapRuns

/-!
# What `resize` leaves behind

The old array is released, and the new one put in its place, in every round of the
copying loop. So the second round already releases the new array, and a third one would
write into it. A capacity of zero is doubled without any round.
-/

set_option autoImplicit false

namespace HPLinuxServer.Timer

open Memory Refinement

variable {γ υ : Type}

namespace TimeHeap

/-- What growth is for: `grown` has room in a new array, which begins with the entries of the
old one, and the old one is gone. -/
structure Grows (heap grown : TimeHeap γ υ) (newArray : Addr) : Prop where
  moved : grown.array = newArray
  room : grown.curSize < grown.capacity
  copied : ∃ cells, heap.blocks heap.array = some cells ∧
    grown.blocks newArray = some (cells.take heap.curSize.toNat ++
      List.replicate (grown.capacity - heap.curSize).toNat (some none))
  released : grown.blocks heap.array = none

/-- `resize` succeeds, without an access to a released array or a second release, and no
access of `add_timer` fails after it. -/
def GrowthKeeps (heap : TimeHeap γ υ) (timer : Ptr) (newArray : Addr) : Prop :=
  (∃ grown, heap.resize newArray = .ok grown ∧ heap.Grows grown newArray) ∧
    ∀ fuel fault, heap.addTimer fuel timer newArray = .error fault → fault = .outOfFuel

variable {heap grown : TimeHeap γ υ} {newArray : Addr}

/-- One round of the loop: the array that was in use is released. -/
theorem resizeLoop_round {i : Int} {rounds : Nat}
    (done : heap.resizeLoop newArray i (rounds + 1) = .ok grown) :
    heap.blocks newArray ≠ none ∧
      ∃ next : TimeHeap γ υ, next.array = newArray ∧ next.curSize = heap.curSize ∧
        next.blocks heap.array = none ∧ next.resizeLoop newArray (i + 1) rounds = .ok grown := by
  rw [resizeLoop] at done
  have stores : ∃ pointer stored, heap.storeCell newArray i pointer = .ok stored ∧
      (do
        let blocks ← stored.blocks.delete (some stored.array)
        resizeLoop { stored with blocks, array := newArray } newArray (i + 1) rounds) =
          .ok grown := by
    split at done
    · obtain ⟨pointer, -, done⟩ := bind_eq_ok_iff.mp done
      obtain ⟨stored, store, done⟩ := bind_eq_ok_iff.mp done
      exact ⟨pointer, stored, store, done⟩
    · obtain ⟨stored, store, done⟩ := bind_eq_ok_iff.mp done
      exact ⟨none, stored, store, done⟩
  obtain ⟨pointer, stored, store, done⟩ := stores
  obtain ⟨blocks, deleted, done⟩ := bind_eq_ok_iff.mp done
  obtain ⟨cells, found, -, rfl⟩ := storeCell_eq_ok store
  refine ⟨by simp [found], { heap with array := newArray, blocks }, rfl, rfl, ?_, done⟩
  change blocks heap.array = none
  cases live : (heap.blocks.write newArray (cells.set i.toNat (some pointer))) heap.array with
  | none => simp [Heap.delete, live] at deleted
  | some old =>
      rw [Heap.delete_some live] at deleted
      cases deleted
      exact Heap.erase_self _ _

/-- If the new array is in use already, the loop releases it and has to end. -/
theorem resizeLoop_releases {i : Int} {rounds : Nat} (switched : heap.array = newArray)
    (done : heap.resizeLoop newArray i (rounds + 1) = .ok grown) :
    rounds = 0 ∧ grown.array = newArray ∧ grown.curSize = heap.curSize ∧
      grown.blocks newArray = none := by
  obtain ⟨-, next, inUse, size, released, rest⟩ := resizeLoop_round done
  rw [switched] at released
  cases rounds with
  | zero =>
      cases rest
      exact ⟨rfl, inUse, size, released⟩
  | succ rounds => exact absurd released (resizeLoop_round rest).1

/-- `resize` gets through with a capacity that stays without room, or with a new array that
it has released. -/
theorem resize_eq_ok (done : heap.resize newArray = .ok grown) :
    grown.curSize = heap.curSize ∧
      (heap.capacity ≤ 0 ∧ grown.capacity = heap.capacity * 2 ∧ grown.array = heap.array ∧
          grown.blocks = heap.blocks.write newArray [] ∨
        heap.capacity = 1 ∧ grown.array = newArray ∧ grown.blocks newArray = none) := by
  unfold resize at done
  obtain ⟨capacity, doubled, done⟩ := bind_eq_ok_iff.mp done
  obtain rfl : heap.capacity * 2 = capacity := by
    unfold checkInt at doubled
    split at doubled
    · exact Except.ok.inj doubled
    · cases doubled
  by_cases positive : heap.capacity ≤ 0
  · have noEntries : (heap.capacity * 2).toNat = 0 := by omega
    rw [noEntries] at done
    cases done
    exact ⟨rfl, .inl ⟨positive, rfl, rfl, rfl⟩⟩
  · obtain ⟨rounds, count⟩ : ∃ rounds, (heap.capacity * 2).toNat = rounds + 1 + 1 :=
      ⟨(heap.capacity * 2).toNat - 2, by omega⟩
    rw [count] at done
    obtain ⟨-, next, inUse, size, -, rest⟩ := resizeLoop_round done
    obtain ⟨last, switched, sameSize, released⟩ := resizeLoop_releases inUse rest
    exact ⟨sameSize.trans size, .inr ⟨by omega, switched, released⟩⟩

end TimeHeap

/-- No `add_timer` that finds the array full gets a larger one. -/
theorem timeHeap_growth_never {heap : TimeHeap γ υ} (full : heap.curSize ≥ heap.capacity)
    (timer : Addr) (newArray : Addr) : ¬ heap.GrowthKeeps (some timer) newArray := by
  rintro ⟨⟨grown, resized, grows⟩, -⟩
  obtain ⟨curSize, ⟨low, capacity, -, -⟩ | ⟨-, -, released⟩⟩ := TimeHeap.resize_eq_ok resized
  · -- twice nothing
    have room := grows.room
    omega
  · obtain ⟨cells, -, kept⟩ := grows.copied
    rw [released] at kept
    cases kept

/-- One timer in an array of one entry, and one that is to be added. -/
def oneTimer : TimeHeap Unit Unit :=
  { array := 0, capacity := 1, curSize := 1
    blocks := Heap.empty.write 0 [some (some 1)]
    timers := (Heap.empty.write 1 ⟨5, none, ()⟩).write 2 ⟨7, none, ()⟩ }

theorem timeHeap_growth_never_oneTimer : ¬ oneTimer.GrowthKeeps (some 2) 9 :=
  timeHeap_growth_never (by decide) 2 9

/-- Two additions to a heap for two timers. -/
def fillingCalls : List (HeapOp Unit Unit) := [.add 1 5 none () 0, .add 2 6 none () 0]

theorem timeHeap_growth_fillingCalls :
    ∃ final, runOps (TracedHeap.exec 2) (TracedHeap.init 2 0) fillingCalls = .ok final ∧
      final.heap.curSize ≥ final.heap.capacity ∧
      ¬ TimeHeap.GrowthKeeps
        { final.heap with timers := final.heap.timers.write 3 ⟨7, none, ()⟩ } (some 3) 9 := by
  have reads : (runOps (TracedHeap.exec 2) (TracedHeap.init 2 0) fillingCalls).map (fun final =>
      (decide (final.heap.curSize ≥ final.heap.capacity), (TimeHeap.resize
        { final.heap with timers := final.heap.timers.write 3 ⟨7, none, ()⟩ } 9).map
          TimeHeap.curSize)) = .ok (true, .error .uninitialised) := by decide +kernel
  cases done : runOps (TracedHeap.exec 2) (TracedHeap.init 2 0) fillingCalls with
  | error fault => rw [done] at reads; exact nomatch reads
  | ok final =>
      rw [done] at reads
      obtain ⟨full, failed⟩ := Prod.mk.inj (Except.ok.inj reads)
      refine ⟨final, rfl, of_decide_eq_true full, ?_⟩
      rintro ⟨⟨grown, resized, -⟩, -⟩
      rw [resized] at failed
      exact nomatch failed

/-- Such a call does not return either: the timer is stored outside of the array, or the
released one is read. -/
theorem Occupied.addTimer_full_fails {heap : TimeHeap γ υ} {contents : List HeapEntry}
    (occupied : Occupied heap contents) (full : heap.curSize ≥ heap.capacity) (timer : Addr)
    (newArray : Addr) (fuel : Nat) (heap' : TimeHeap γ υ) :
    heap.addTimer fuel (some timer) newArray ≠ .ok heap' := by
  intro returned
  obtain ⟨cells, block, capacity, points⟩ := occupied.block
  have curSize := occupied.curSize
  unfold TimeHeap.addTimer at returned
  simp only [if_pos full] at returned
  obtain ⟨grown, resized, returned⟩ := bind_eq_ok_iff.mp returned
  obtain ⟨size, counted, returned⟩ := bind_eq_ok_iff.mp returned
  obtain ⟨⟨ended, hole⟩, looped, stored⟩ := bind_eq_ok_iff.mp returned
  obtain ⟨sameSize, outcome⟩ := TimeHeap.resize_eq_ok resized
  rcases outcome with ⟨low, -, array, blocks⟩ | ⟨single, array, released⟩
  · have empty : cells = [] := List.eq_nil_of_length_eq_zero (by omega)
    have noTimers : grown.curSize ≤ 0 := by
      have room := points.room
      omega
    rw [TimeHeap.addTimerLoop_root fuel noTimers] at looped
    cases looped
    obtain ⟨cells', block', inside, -⟩ := TimeHeap.storeCell_eq_ok stored
    have written : heap.blocks.write newArray [] heap.array = some cells' :=
      blocks ▸ array ▸ block'
    have nothing : cells' = [] := by
      by_cases same : heap.array = newArray
      · rw [same, Heap.write_self] at written
        exact (Option.some.inj written).symm
      · rw [Heap.write_other _ _ same, block, empty] at written
        exact (Option.some.inj written).symm
    rw [nothing] at inside
    exact absurd inside (Nat.not_lt_zero _)
  · have positive : grown.curSize > 0 := by omega
    unfold TimeHeap.addTimerLoop at looped
    rw [if_pos positive] at looped
    cases fuel with
    | zero => cases looped
    | succ fuel =>
        obtain ⟨expire, read, -⟩ := bind_eq_ok_iff.mp looped
        simp [TimeHeap.expireAt, TimeHeap.entry, TimeHeap.loadCell, Heap.load, array, released]
          at read

end HPLinuxServer.Timer
