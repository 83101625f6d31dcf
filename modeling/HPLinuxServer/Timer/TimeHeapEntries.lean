import Mathlib.Data.Int.ConditionallyCompleteOrder
import Mathlib.Order.ConditionallyCompleteLattice.Basic
import Mathlib.Data.List.Perm.Basic
import HPLinuxServer.Scheduling.BinaryHeap
import HPLinuxServer.Timer.TimeHeap

/-!
# What the array of a time heap holds

The first entries of the array point to the timers of a list. Reads of these entries and
stores into them are reads of that list and changes of it.
-/

set_option autoImplicit false

namespace HPLinuxServer.Timer

open Memory Scheduling

/-- A timer of the heap. -/
structure HeapEntry where
  timer : Addr
  expire : Int
  deriving DecidableEq, Repr

variable {γ υ : Type}

/-- The expiration at position `i`; positions beyond the end do not matter. -/
def expireOf (contents : List HeapEntry) (i : Nat) : Int :=
  (contents[i]?.map HeapEntry.expire).getD 0

theorem expireOf_eq {contents : List HeapEntry} {i : Nat} {entry : HeapEntry}
    (found : contents[i]? = some entry) : expireOf contents i = entry.expire := by
  simp [expireOf, found]

/-- The timers of `contents` are live and distinct. -/
structure Live (timers : Heap (HeapTimer γ υ)) (contents : List HeapEntry) : Prop where
  stored : ∀ entry ∈ contents, (timers entry.timer).map HeapTimer.expire = some entry.expire
  distinct : (contents.map HeapEntry.timer).Nodup

namespace Live

variable {timers : Heap (HeapTimer γ υ)} {contents : List HeapEntry}

theorem perm (live : Live timers contents) {contents' : List HeapEntry}
    (same : contents'.Perm contents) : Live timers contents' where
  stored entry member := live.stored entry (same.mem_iff.mp member)
  distinct := (same.map HeapEntry.timer).nodup_iff.mpr live.distinct

theorem cons (live : Live timers contents) {entry : HeapEntry}
    (made : (timers entry.timer).map HeapTimer.expire = some entry.expire)
    (fresh : entry.timer ∉ contents.map HeapEntry.timer) : Live timers (entry :: contents) where
  stored other member := by
    rcases List.mem_cons.mp member with rfl | member
    · exact made
    · exact live.stored other member
  distinct := List.nodup_cons.mpr ⟨fresh, live.distinct⟩

theorem found (live : Live timers contents) {entry : HeapEntry} (member : entry ∈ contents) :
    ∃ node, timers entry.timer = some node ∧ node.expire = entry.expire :=
  Option.map_eq_some_iff.mp (live.stored entry member)

theorem erase {entry : HeapEntry} (live : Live timers (entry :: contents)) :
    Live (timers.erase entry.timer) contents := by
  obtain ⟨outside, distinct⟩ := List.nodup_cons.mp live.distinct
  constructor
  · intro other member
    have different : other.timer ≠ entry.timer := fun same =>
      outside (same ▸ List.mem_map_of_mem member)
    rw [Heap.erase_other _ different]
    exact live.stored other (List.mem_cons_of_mem _ member)
  · exact distinct

end Live

/-- The first entries of the array point to the timers of `contents`. -/
structure Points (cells : Block) (contents : List HeapEntry) : Prop where
  room : contents.length ≤ cells.length
  pointers : ∀ (i : Nat) (entry : HeapEntry), contents[i]? = some entry →
    cells[i]? = some (some (some entry.timer))

/-- The array holds the timers of `contents` in its first `cur_size` entries. -/
structure Holds (heap : TimeHeap γ υ) (contents : List HeapEntry) : Prop where
  block : ∃ cells, heap.blocks heap.array = some cells ∧ heap.capacity = cells.length ∧
    Points cells contents
  curSize : heap.curSize = contents.length
  small : heap.capacity ≤ 2147483647
  live : Live heap.timers contents

/-- A heap of these timers: the parent of a timer expires no later. -/
structure MinHeap (heap : TimeHeap γ υ) (contents : List HeapEntry) : Prop where
  holds : Holds heap contents
  ordered : HeapOrdered (expireOf contents) contents.length

/-- As `Holds`, but one timer may be in several entries. -/
structure Occupied (heap : TimeHeap γ υ) (contents : List HeapEntry) : Prop where
  block : ∃ cells, heap.blocks heap.array = some cells ∧ heap.capacity = cells.length ∧
    Points cells contents
  curSize : heap.curSize = contents.length
  small : heap.capacity ≤ 2147483647
  stored : ∀ entry ∈ contents, (heap.timers entry.timer).map HeapTimer.expire = some entry.expire

namespace Occupied

variable {heap : TimeHeap γ υ} {contents : List HeapEntry}

theorem entry_eq (occupied : Occupied heap contents) {i : Nat} {entry : HeapEntry}
    (found : contents[i]? = some entry) : heap.entry i = .ok (some entry.timer) := by
  obtain ⟨cells, block, -, points⟩ := occupied.block
  unfold TimeHeap.entry TimeHeap.loadCell
  rw [Heap.load_some block]
  simp [points.pointers i entry found]

theorem expireAt_eq (occupied : Occupied heap contents) {i : Nat} {entry : HeapEntry}
    (found : contents[i]? = some entry) : heap.expireAt i = .ok entry.expire := by
  obtain ⟨node, live, expire⟩ := Option.map_eq_some_iff.mp
    (occupied.stored entry (List.mem_of_getElem? found))
  unfold TimeHeap.expireAt
  rw [occupied.entry_eq found]
  simp only [ok_bind, Heap.load_some live, expire, pure_eq_ok]

end Occupied

namespace Holds

variable {heap : TimeHeap γ υ} {contents : List HeapEntry}

theorem occupied (holds : Holds heap contents) : Occupied heap contents :=
  { holds with stored := holds.live.stored }

theorem entry_eq (holds : Holds heap contents) {i : Nat} {entry : HeapEntry}
    (found : contents[i]? = some entry) : heap.entry i = .ok (some entry.timer) :=
  holds.occupied.entry_eq found

theorem expireAt_eq (holds : Holds heap contents) {i : Nat} {entry : HeapEntry}
    (found : contents[i]? = some entry) : heap.expireAt i = .ok entry.expire :=
  holds.occupied.expireAt_eq found

end Holds

namespace TimeHeap

/-- The heap after a store into the array, which has the entries `cells`. -/
def setCell (heap : TimeHeap γ υ) (cells : Block) (i : Nat) (pointer : Ptr) : TimeHeap γ υ :=
  { heap with blocks := heap.blocks.write heap.array (cells.set i (some pointer)) }

section SetCell

variable {heap : TimeHeap γ υ} {cells : Block} {i : Nat} {pointer : Ptr}

@[simp] theorem setCell_curSize : (heap.setCell cells i pointer).curSize = heap.curSize := rfl

@[simp] theorem setCell_capacity : (heap.setCell cells i pointer).capacity = heap.capacity := rfl

@[simp] theorem setCell_timers : (heap.setCell cells i pointer).timers = heap.timers := rfl

@[simp] theorem setCell_block :
    (heap.setCell cells i pointer).blocks (heap.setCell cells i pointer).array =
      some (cells.set i (some pointer)) := Heap.write_self _ _ _

theorem storeEntry_eq (block : heap.blocks heap.array = some cells) (inside : i < cells.length)
    (pointer : Ptr) : heap.storeEntry i pointer = .ok (heap.setCell cells i pointer) := by
  unfold storeEntry storeCell
  rw [Heap.load_some block]
  have notOutside : ¬ ((i : Int) < 0 ∨ i ≥ cells.length) := by omega
  simp only [ok_bind, Int.toNat_natCast, if_neg notOutside, pure_eq_ok, setCell]

theorem entry_setCell (block : heap.blocks heap.array = some cells) {j : Nat} (apart : j ≠ i) :
    (heap.setCell cells i pointer).entry j = heap.entry j := by
  unfold entry loadCell
  rw [Heap.load_some block, Heap.load_some setCell_block]
  simp only [ok_bind, Int.toNat_natCast, List.getElem?_set_ne (Ne.symm apart)]

theorem expireAt_setCell (block : heap.blocks heap.array = some cells) {j : Nat} (apart : j ≠ i) :
    (heap.setCell cells i pointer).expireAt j = heap.expireAt j := by
  unfold expireAt
  rw [entry_setCell block apart]
  rfl

/-- Storing the entry that is there already. -/
theorem setCell_self (block : heap.blocks heap.array = some cells)
    (there : cells[i]? = some (some pointer)) : heap.setCell cells i pointer = heap := by
  obtain ⟨inside, same⟩ := List.getElem?_eq_some_iff.mp there
  have unchanged : heap.blocks.write heap.array (cells.set i (some pointer)) = heap.blocks := by
    rw [← same, List.set_getElem_self]
    funext address
    by_cases here : address = heap.array
    · rw [here, Heap.write_self, block]
    · exact Heap.write_other _ _ here
  unfold setCell
  rw [unchanged]

end SetCell

/-- A store is made inside a block that is not freed by it. -/
theorem storeCell_eq_ok {heap stored : TimeHeap γ υ} {block : Addr} {i : Int} {pointer : Ptr}
    (done : heap.storeCell block i pointer = .ok stored) :
    ∃ cells, heap.blocks block = some cells ∧ i.toNat < cells.length ∧
      stored = { heap with
        blocks := heap.blocks.write block (cells.set i.toNat (some pointer)) } := by
  unfold storeCell at done
  cases found : heap.blocks block with
  | none => simp [Heap.load, found] at done
  | some cells =>
      rw [Heap.load_some found, ok_bind] at done
      by_cases outside : i < 0 ∨ i.toNat ≥ cells.length
      · rw [if_pos outside] at done
        cases done
      · rw [if_neg outside] at done
        cases done
        exact ⟨cells, rfl, by omega, rfl⟩

/-- The timer at `index` can be read, and expires no later than `bound`. -/
def ExpiresBy (heap : TimeHeap γ υ) (index bound : Int) : Prop :=
  match heap.expireAt index with
  | .ok expire => expire ≤ bound
  | .error _ => False

/-- The timer at `index` can be read, and expires no earlier than `bound`. -/
def ExpiresFrom (heap : TimeHeap γ υ) (index bound : Int) : Prop :=
  match heap.expireAt index with
  | .ok expire => bound ≤ expire
  | .error _ => False

theorem expiresFrom_iff {heap : TimeHeap γ υ} {index bound : Int} :
    heap.ExpiresFrom index bound ↔ ∃ expire, heap.expireAt index = .ok expire ∧ bound ≤ expire := by
  unfold ExpiresFrom
  cases heap.expireAt index with
  | ok expire => simp
  | error fault => simp

end TimeHeap

theorem Occupied.expireAt_expireOf {heap : TimeHeap γ υ} {contents : List HeapEntry}
    (occupied : Occupied heap contents) {i : Nat} (inside : i < contents.length) :
    heap.expireAt i = .ok (expireOf contents i) := by
  have found := List.getElem?_eq_getElem inside
  rw [expireOf_eq found]
  exact occupied.expireAt_eq found

theorem Occupied.expiresBy_iff {heap : TimeHeap γ υ} {contents : List HeapEntry}
    (occupied : Occupied heap contents) {i : Nat} (inside : i < contents.length) {bound : Int} :
    heap.ExpiresBy i bound ↔ expireOf contents i ≤ bound := by
  have found := List.getElem?_eq_getElem inside
  unfold TimeHeap.ExpiresBy
  rw [occupied.expireAt_eq found, expireOf_eq found]

namespace Holds

variable {heap : TimeHeap γ υ} {contents : List HeapEntry}

theorem expiresBy_iff (holds : Holds heap contents) {i : Nat} (inside : i < contents.length)
    {bound : Int} : heap.ExpiresBy i bound ↔ expireOf contents i ≤ bound :=
  holds.occupied.expiresBy_iff inside

theorem expiresFrom_iff (holds : Holds heap contents) {i : Nat} (inside : i < contents.length)
    {bound : Int} : heap.ExpiresFrom i bound ↔ bound ≤ expireOf contents i := by
  have found := List.getElem?_eq_getElem inside
  unfold TimeHeap.ExpiresFrom
  rw [holds.expireAt_eq found, expireOf_eq found]

end Holds

namespace Points

variable {cells : Block} {contents : List HeapEntry}

theorem append (points : Points cells contents) (room : contents.length < cells.length)
    (entry : HeapEntry) :
    Points (cells.set contents.length (some (some entry.timer))) (contents ++ [entry]) := by
  constructor
  · simpa using Nat.succ_le_of_lt room
  · intro i other found
    by_cases last : i = contents.length
    · subst last
      obtain rfl : entry = other := by simpa using found
      simp [room]
    · have before : i < contents.length := by
        have inside := (List.getElem?_eq_some_iff.mp found).1
        simp at inside
        omega
      rw [List.getElem?_append_left before] at found
      rw [List.getElem?_set_ne (Ne.symm last)]
      exact points.pointers i other found

theorem set (points : Points cells contents) {i : Nat} (inside : i < contents.length)
    (entry : HeapEntry) :
    Points (cells.set i (some (some entry.timer))) (contents.set i entry) := by
  constructor
  · simpa using points.room
  · intro j other found
    by_cases here : i = j
    · subst here
      have within : i < cells.length := Nat.lt_of_lt_of_le inside points.room
      obtain rfl : entry = other := by simpa [inside] using found
      simp [within]
    · rw [List.getElem?_set_ne here] at found ⊢
      exact points.pointers j other found

theorem dropLast (points : Points cells contents) : Points cells contents.dropLast := by
  constructor
  · have room := points.room
    rw [List.length_dropLast]
    omega
  · intro i entry found
    have inside := (List.getElem?_eq_some_iff.mp found).1
    rw [List.length_dropLast] at inside
    rw [List.getElem?_dropLast, if_pos inside] at found
    exact points.pointers i entry found

end Points

theorem Occupied.set {heap : TimeHeap γ υ} {contents : List HeapEntry} {pos : Nat} {cells : Block}
    (occupied : Occupied heap contents) (block : heap.blocks heap.array = some cells)
    (inside : pos < contents.length) {entry : HeapEntry}
    (stored : (heap.timers entry.timer).map HeapTimer.expire = some entry.expire) :
    Occupied (heap.setCell cells pos (some entry.timer)) (contents.set pos entry) := by
  obtain ⟨cells', block', capacity, points⟩ := occupied.block
  obtain rfl := Option.some.inj (block.symm.trans block')
  constructor
  · exact ⟨_, TimeHeap.setCell_block, by simpa using capacity, points.set inside entry⟩
  · simpa using occupied.curSize
  · exact occupied.small
  · intro other member
    rcases List.mem_or_eq_of_mem_set member with before | rfl
    · exact occupied.stored other before
    · exact stored

end HPLinuxServer.Timer
