import HPLinuxServer.Timer.TimeHeapEntries

/-!
# The sift of the time heap

`precolate_down` compares the lesser child of a position with the entry there. Once that child
has moved up, this is the child itself, so the loop goes on only if the child was not in order
with its own children.
-/

set_option autoImplicit false

namespace HPLinuxServer.Timer

open Memory Scheduling

variable {γ υ : Type}

namespace TimeHeap

variable {heap : TimeHeap γ υ}

/-- Both children that are compared expire no earlier: the loop ends. -/
theorem precolateDownLoop_stops {pos child chosen : Int} {here below : Int} (fuel : Nat)
    (inside : child < heap.curSize) (choice : heap.lesserChild pos = .ok chosen)
    (read : heap.expireAt pos = .ok here) (readBelow : heap.expireAt chosen = .ok below)
    (later : here ≤ below) :
    heap.precolateDownLoop (fuel + 1) pos child = .ok (heap, pos) := by
  unfold precolateDownLoop
  rw [if_pos inside]
  simp only [choice, ok_bind, readBelow, read, if_neg (Int.not_lt.mpr later), pure_eq_ok]

/-- The lesser child expires earlier: it moves up. -/
theorem precolateDownLoop_moves {pos child chosen : Int} {here below : Int} (fuel : Nat)
    (inside : child < heap.curSize) (choice : heap.lesserChild pos = .ok chosen)
    (read : heap.expireAt pos = .ok here) (readBelow : heap.expireAt chosen = .ok below)
    (earlier : below < here) {pointer : Ptr} (pointed : heap.entry chosen = .ok pointer)
    {moved : TimeHeap γ υ} (stored : heap.storeEntry pos pointer = .ok moved) :
    heap.precolateDownLoop (fuel + 1) pos child =
      moved.precolateDownLoop fuel chosen chosen := by
  rw [precolateDownLoop]
  simp only [if_pos inside, choice, ok_bind, readBelow, read, if_pos earlier, pointed, stored]

/-- The choice depends on the size and on the two children only. -/
theorem lesserChild_eq {pos first : Int} (low : 0 ≤ pos) (small : 2 * pos + 1 ≤ 2147483647)
    (readFirst : heap.expireAt (2 * pos + 1) = .ok first) :
    (¬ 2 * pos + 1 < heap.curSize - 1 → heap.lesserChild pos = .ok (2 * pos + 1)) ∧
      ∀ second, 2 * pos + 1 < heap.curSize - 1 →
        heap.expireAt (2 * pos + 1 + 1) = .ok second →
        heap.lesserChild pos = .ok (if first > second then 2 * pos + 1 + 1 else 2 * pos + 1) := by
  unfold lesserChild
  rw [checkInt_eq_ok (by omega) (by omega)]
  constructor
  · intro single
    simp only [ok_bind, if_neg single, pure_eq_ok]
  · intro second both readSecond
    simp only [ok_bind, if_pos both, readFirst, readSecond]
    split <;> rfl

/-- The first child is the only one that is looked at, and cannot be read. -/
theorem precolateDownLoop_unread {pos : Nat} {child : Int} {fault : Fault} (fuel : Nat)
    (started : child < heap.curSize) (single : heap.curSize ≤ 2 * (pos : Int) + 1)
    (unread : heap.expireAt (2 * (pos : Int) + 1) = .error fault) :
    ∃ fault, heap.precolateDownLoop (fuel + 1) pos child = .error fault := by
  unfold precolateDownLoop lesserChild
  rw [if_pos started]
  by_cases small : 2 * (pos : Int) + 1 ≤ 2147483647
  · rw [checkInt_eq_ok (by omega) small]
    have last : ¬ 2 * (pos : Int) + 1 < heap.curSize - 1 := by omega
    simp only [ok_bind, if_neg last, pure_eq_ok, unread]
    exact ⟨_, rfl⟩
  · have overflow : checkInt (2 * (pos : Int) + 1) = .error .signedOverflow :=
      if_neg fun range => small range.2
    rw [overflow]
    exact ⟨_, rfl⟩

end TimeHeap

theorem Occupied.lesserChild_eq {heap : TimeHeap γ υ} {contents : List HeapEntry}
    (occupied : Occupied heap contents) {pos : Nat} (inside : 2 * pos + 1 < contents.length) :
    heap.lesserChild pos = .ok ((lesser (expireOf contents) contents.length pos : Nat) : Int) := by
  obtain ⟨cells, -, capacity, points⟩ := occupied.block
  have room := points.room
  have curSize := occupied.curSize
  have small := occupied.small
  have first := occupied.expireAt_expireOf inside
  have index : ((2 * pos + 1 : Nat) : Int) = 2 * (pos : Int) + 1 := by omega
  rw [index] at first
  obtain ⟨single, both⟩ := TimeHeap.lesserChild_eq (by omega) (by omega) first
  unfold lesser
  by_cases more : 2 * pos + 2 < contents.length
  · have second := occupied.expireAt_expireOf more
    have index' : ((2 * pos + 2 : Nat) : Int) = 2 * (pos : Int) + 1 + 1 := by omega
    rw [index'] at second
    rw [both _ (by omega) second]
    by_cases less : expireOf contents (2 * pos + 2) < expireOf contents (2 * pos + 1)
    · rw [if_pos less, if_pos ⟨more, less⟩, index']
    · rw [if_neg less, if_neg fun both => less both.2, index]
  · rw [single (by omega), if_neg fun both => more both.1, index]

theorem exchange_perm {contents : List HeapEntry} {pos child : Nat} {here below : HeapEntry}
    (found : contents[pos]? = some here) (foundChild : contents[child]? = some below) :
    ((contents.set pos below).set child here).Perm contents := by
  obtain ⟨inside, rfl⟩ := List.getElem?_eq_some_iff.mp found
  obtain ⟨insideChild, rfl⟩ := List.getElem?_eq_some_iff.mp foundChild
  exact List.set_set_perm inside insideChild

namespace Occupied

variable {heap : TimeHeap γ υ} {contents : List HeapEntry} {pos : Nat} {here : HeapEntry}

/-- `precolate_down` puts the timer at `pos` where its loop ends. -/
theorem precolateDown_small (occupied : Occupied heap contents) (fuel : Nat)
    (found : contents[pos]? = some here) (small : 2 * (pos : Int) + 1 ≤ 2147483647) :
    heap.precolateDown fuel pos = (do
      let (heap, pos) ← heap.precolateDownLoop fuel pos (2 * pos + 1)
      heap.storeEntry pos (some here.timer)) := by
  have inside := (List.getElem?_eq_some_iff.mp found).1
  have curSize := occupied.curSize
  have notOutside : ¬ ((pos : Int) < 0 ∨ pos ≥ heap.curSize) := by omega
  unfold TimeHeap.precolateDown
  rw [if_neg notOutside, checkInt_eq_ok (by omega) small]
  simp only [occupied.entry_eq found, ok_bind]

theorem precolateDown_eq (occupied : Occupied heap contents) (fuel : Nat)
    (found : contents[pos]? = some here) (inner : 2 * pos + 1 ≤ contents.length) :
    heap.precolateDown fuel pos = (do
      let (heap, pos) ← heap.precolateDownLoop fuel pos (2 * pos + 1)
      heap.storeEntry pos (some here.timer)) := by
  obtain ⟨cells, -, capacity, points⟩ := occupied.block
  have small := occupied.small
  have room := points.room
  exact occupied.precolateDown_small fuel found (by omega)

theorem precolateDown_stops (occupied : Occupied heap contents) {fuel : Nat}
    (found : contents[pos]? = some here) (inner : 2 * pos + 1 ≤ contents.length)
    (stopped : heap.precolateDownLoop fuel pos (2 * pos + 1) = .ok (heap, (pos : Int))) :
    heap.precolateDown fuel pos = .ok heap := by
  obtain ⟨cells, block, -, points⟩ := occupied.block
  have inside := (List.getElem?_eq_some_iff.mp found).1
  have within : pos < cells.length := Nat.lt_of_lt_of_le inside points.room
  have stored := TimeHeap.storeEntry_eq block within (some here.timer)
  rw [TimeHeap.setCell_self block (points.pointers pos here found)] at stored
  rw [occupied.precolateDown_eq _ found inner, stopped]
  exact stored

/-- The lesser child moves up, and the loop goes on where it was. -/
theorem precolateDownLoop_lowers {cells : Block} {child : Nat} {below : HeapEntry}
    (occupied : Occupied heap contents) (fuel : Nat)
    (block : heap.blocks heap.array = some cells)
    (choice : heap.lesserChild pos = .ok (child : Int)) (inside : 2 * pos + 1 < contents.length)
    (found : contents[pos]? = some here) (foundChild : contents[child]? = some below)
    (less : below.expire < here.expire) :
    heap.precolateDownLoop (fuel + 1) pos (2 * pos + 1) =
      (heap.setCell cells pos (some below.timer)).precolateDownLoop fuel child child := by
  obtain ⟨cells', block', -, points⟩ := occupied.block
  obtain rfl := Option.some.inj (block.symm.trans block')
  have curSize := occupied.curSize
  have room := points.room
  exact TimeHeap.precolateDownLoop_moves fuel (by omega) choice (occupied.expireAt_eq found)
    (occupied.expireAt_eq foundChild) less (occupied.entry_eq foundChild)
    (TimeHeap.storeEntry_eq block (by omega) _)

/-- The timer at `pos` changes places with its lesser child, where the loop ends. -/
theorem precolateDown_swaps {cells : Block} {child : Nat} {below : HeapEntry}
    (occupied : Occupied heap contents) (fuel : Nat)
    (block : heap.blocks heap.array = some cells)
    (choice : heap.lesserChild pos = .ok (child : Int)) (inside : 2 * pos + 1 < contents.length)
    (found : contents[pos]? = some here) (foundChild : contents[child]? = some below)
    (less : below.expire < here.expire)
    (stopped : (heap.setCell cells pos (some below.timer)).precolateDownLoop fuel child child =
      .ok (heap.setCell cells pos (some below.timer), (child : Int))) :
    ∃ heap', heap.precolateDown (fuel + 1) pos = .ok heap' ∧
      Occupied heap' ((contents.set pos below).set child here) ∧
      heap'.capacity = heap.capacity ∧ heap'.timers = heap.timers := by
  have moved := occupied.set block (by omega : pos < contents.length)
    (occupied.stored below (List.mem_of_getElem? foundChild))
  have insideChild : child < (contents.set pos below).length := by
    rw [List.length_set]
    exact (List.getElem?_eq_some_iff.mp foundChild).1
  obtain ⟨cells', block', -, points⟩ := moved.block
  obtain rfl := Option.some.inj (TimeHeap.setCell_block.symm.trans block')
  have lowered := occupied.precolateDownLoop_lowers fuel block choice inside found foundChild less
  rw [occupied.precolateDown_eq _ found (Nat.le_of_lt inside), lowered, stopped, ok_bind]
  refine ⟨_, TimeHeap.storeEntry_eq block' (Nat.lt_of_lt_of_le insideChild points.room) _, ?_,
    rfl, rfl⟩
  exact moved.set block' insideChild (occupied.stored here (List.mem_of_getElem? found))

end Occupied

end HPLinuxServer.Timer
