import HPLinuxServer.Scheduling.ShallowHeapify
import HPLinuxServer.Timer.TimeHeapSift

/-!
# When the second constructor builds a heap

`cur_size` becomes the capacity, so entries that are still null are compared if there are
more of them than timers. In an array without such entries each `precolate_down` moves a
timer down by one level, provided that the entry below has children: the loop reads the first
one before it compares its position with `cur_size`.
-/

set_option autoImplicit false

namespace HPLinuxServer.Timer

open Memory Scheduling

variable {γ υ : Type}

/-! ## Exchanges of entries -/

section Exchange

variable {contents : List HeapEntry} {pos child : Nat} {here below : HeapEntry}

theorem expireOf_set_self (inside : pos < contents.length) :
    expireOf (contents.set pos here) pos = here.expire :=
  expireOf_eq (List.getElem?_set_self inside)

theorem expireOf_set_ne {i : Nat} (apart : i ≠ pos) :
    expireOf (contents.set pos here) i = expireOf contents i := by
  unfold expireOf
  rw [List.getElem?_set_ne (Ne.symm apart)]

theorem exchange_expireOf (found : contents[pos]? = some here)
    (foundBelow : contents[child]? = some below) :
    expireOf ((contents.set pos below).set child here) =
      expireOf contents ∘ Equiv.swap pos child := by
  have inside := (List.getElem?_eq_some_iff.mp found).1
  have insideBelow := (List.getElem?_eq_some_iff.mp foundBelow).1
  funext i
  by_cases atChild : i = child
  · rw [atChild, swap_child, expireOf_set_self (by simpa using insideBelow), expireOf_eq found]
  · rw [expireOf_set_ne atChild]
    by_cases atPos : i = pos
    · rw [atPos, swap_pos, expireOf_set_self inside, expireOf_eq foundBelow]
    · rw [expireOf_set_ne atPos, swap_apart atPos atChild]

end Exchange

/-! ## One sift -/

namespace Occupied

variable {heap : TimeHeap γ υ} {contents : List HeapEntry} {pos : Nat}

/-- The loop ends at a position that no child should be above. -/
theorem precolateDownLoop_rests (occupied : Occupied heap contents) (fuel : Nat)
    (inside : 2 * pos + 1 < contents.length) {child : Int} (started : child < heap.curSize)
    (rests : expireOf contents pos ≤
      expireOf contents (lesser (expireOf contents) contents.length pos)) :
    heap.precolateDownLoop (fuel + 1) pos child = .ok (heap, (pos : Int)) :=
  TimeHeap.precolateDownLoop_stops fuel started (occupied.lesserChild_eq inside)
    (occupied.expireAt_expireOf (by omega)) (occupied.expireAt_expireOf (lesser_lt inside)) rests

/-- From an entry without children the loop reads beyond the array. -/
theorem precolateDownLoop_leaf (occupied : Occupied heap contents) (fuel : Nat)
    (full : heap.capacity = heap.curSize) (leaf : contents.length ≤ 2 * pos + 1) {child : Int}
    (started : child < heap.curSize) :
    ∃ fault, heap.precolateDownLoop (fuel + 1) pos child = .error fault := by
  obtain ⟨cells, block, capacity, -⟩ := occupied.block
  have curSize := occupied.curSize
  have unread : heap.expireAt (2 * (pos : Int) + 1) = .error .outOfBounds := by
    have index : 2 * (pos : Int) + 1 = ((2 * pos + 1 : Nat) : Int) := by omega
    have beyond : cells[2 * pos + 1]? = none := List.getElem?_eq_none (by omega)
    unfold TimeHeap.expireAt TimeHeap.entry TimeHeap.loadCell
    rw [index, Heap.load_some block]
    simp only [ok_bind, Int.toNat_natCast, beyond, if_neg (by omega : ¬ ((2 * pos + 1 : Nat) : Int) < 0)]
    rfl
  exact TimeHeap.precolateDownLoop_unread fuel started (by omega) unread

theorem precolateDown_stays {here : HeapEntry} (occupied : Occupied heap contents) (fuel : Nat)
    (found : contents[pos]? = some here) (inner : 2 * pos + 1 ≤ contents.length)
    (stays : 2 * pos + 1 < contents.length →
      expireOf contents pos ≤ expireOf contents (lesser (expireOf contents) contents.length pos)) :
    heap.precolateDown (fuel + 1) pos = .ok heap := by
  have curSize := occupied.curSize
  have inside := (List.getElem?_eq_some_iff.mp found).1
  apply occupied.precolateDown_stops found inner
  by_cases parent : 2 * pos + 1 < contents.length
  · exact occupied.precolateDownLoop_rests fuel parent (by omega) (stays parent)
  · unfold TimeHeap.precolateDownLoop
    rw [if_neg (by omega)]
    rfl

section Lowers

variable {child : Nat} {here below : HeapEntry} {cells : Block}

theorem lowered (occupied : Occupied heap contents) (block : heap.blocks heap.array = some cells)
    (inside : pos < contents.length) (foundChild : contents[child]? = some below) :
    Occupied (heap.setCell cells pos (some below.timer)) (contents.set pos below) :=
  occupied.set block inside (occupied.stored below (List.mem_of_getElem? foundChild))

/-- The lesser child has children itself, and is in order with them. -/
theorem precolateDown_exchanges (occupied : Occupied heap contents) (fuel : Nat)
    (choice : heap.lesserChild pos = .ok (child : Int)) (isChild : IsChild child pos)
    (found : contents[pos]? = some here) (foundChild : contents[child]? = some below)
    (less : below.expire < here.expire) (parent : 2 * child + 1 < contents.length)
    (least : ∀ i, IsChild i child → i < contents.length →
      expireOf contents child ≤ expireOf contents i) :
    ∃ heap', heap.precolateDown (fuel + 2) pos = .ok heap' ∧
      Occupied heap' ((contents.set pos below).set child here) ∧
      heap'.capacity = heap.capacity := by
  obtain ⟨cells, block, -, -⟩ := occupied.block
  have lower := isChild.lt
  have choices := isChild_iff.mp isChild
  have moved := occupied.lowered block (by omega : pos < contents.length) foundChild
  have parent' : 2 * child + 1 < (contents.set pos below).length := by simpa using parent
  have stopped : (heap.setCell cells pos (some below.timer)).precolateDownLoop (fuel + 1) child
      child = .ok (heap.setCell cells pos (some below.timer), (child : Int)) := by
    apply moved.precolateDownLoop_rests fuel parent'
    · rw [moved.curSize]
      omega
    · have isGrandchild := lesser_isChild (expireOf (contents.set pos below))
        (contents.set pos below).length child
      have lowest := isGrandchild.lt
      rw [expireOf_set_ne (by omega), expireOf_set_ne (by omega)]
      exact least _ isGrandchild (by simpa using lesser_lt parent')
  obtain ⟨heap', done, occupied', capacity, -⟩ := occupied.precolateDown_swaps (fuel + 1) block
    choice (by omega) found foundChild less stopped
  exact ⟨heap', done, occupied', capacity⟩

/-- The lesser child is an entry without children. -/
theorem precolateDown_fails (occupied : Occupied heap contents) (fuel : Nat)
    (full : heap.capacity = heap.curSize) (choice : heap.lesserChild pos = .ok (child : Int))
    (isChild : IsChild child pos) (found : contents[pos]? = some here)
    (foundChild : contents[child]? = some below) (less : below.expire < here.expire)
    (leaf : contents.length ≤ 2 * child + 1) :
    ∃ fault, heap.precolateDown (fuel + 2) pos = .error fault := by
  obtain ⟨cells, block, -, -⟩ := occupied.block
  have insideChild := (List.getElem?_eq_some_iff.mp foundChild).1
  have choices := isChild_iff.mp isChild
  have moved := occupied.lowered block (by omega : pos < contents.length) foundChild
  have started : (child : Int) < (heap.setCell cells pos (some below.timer)).curSize := by
    rw [moved.curSize, List.length_set]
    omega
  obtain ⟨fault, failed⟩ := moved.precolateDownLoop_leaf fuel full (by simpa using leaf) started
  rw [occupied.precolateDown_eq _ found (by omega),
    occupied.precolateDownLoop_lowers _ block choice (by omega) found foundChild less, failed]
  exact ⟨fault, rfl⟩

end Lowers

end Occupied

/-! ## The sifts of the whole array -/

/-- What the sifts of the array come to: its timers in the order that they are given, in an
array that is full, or a fault where no order is given. -/
inductive SiftsTo (contents : List HeapEntry) :
    Option (Nat → Int) → Except Fault (TimeHeap γ υ) → Prop where
  | order {heap : TimeHeap γ υ} {contents' : List HeapEntry} (occupied : Occupied heap contents')
      (same : contents'.Perm contents) (full : heap.capacity = heap.curSize) :
      SiftsTo contents (some (expireOf contents')) (.ok heap)
  | fault (fault : Fault) : SiftsTo contents none (.error fault)

theorem SiftsTo.perm {contents contents' : List HeapEntry} {sifted : Option (Nat → Int)}
    {result : Except Fault (TimeHeap γ υ)} (sifts : SiftsTo contents' sifted result)
    (same : contents'.Perm contents) : SiftsTo contents sifted result := by
  cases sifts with
  | order occupied same' full => exact .order occupied (same'.trans same) full
  | fault fault => exact .fault fault

namespace Occupied

variable {heap : TimeHeap γ υ} {contents : List HeapEntry} {pos low : Nat}

theorem precolateDown_sifts (occupied : Occupied heap contents) (fuel : Nat)
    (full : heap.capacity = heap.curSize) (inside : pos < contents.length)
    (inner : 2 * pos + 1 ≤ contents.length)
    (front : FrontOrdered (pos + 1) (expireOf contents) contents.length) :
    SiftsTo contents (shallowSift contents.length (expireOf contents) pos)
      (heap.precolateDown (fuel + 2) pos) := by
  have found := List.getElem?_eq_getElem inside
  generalize chosen : lesser (expireOf contents) contents.length pos = child
  unfold shallowSift
  rw [chosen]
  by_cases less : 2 * pos + 1 < contents.length ∧ expireOf contents child < expireOf contents pos
  · rw [if_pos less]
    obtain ⟨parent, less⟩ := less
    have choice := occupied.lesserChild_eq parent
    have isChild : IsChild child pos := chosen ▸ lesser_isChild _ _ _
    have foundChild := List.getElem?_eq_getElem (chosen ▸ lesser_lt parent : child < contents.length)
    rw [chosen] at choice
    rw [expireOf_eq found, expireOf_eq foundChild] at less
    by_cases parentBelow : 2 * child + 1 < contents.length
    · have least : ∀ i, IsChild i child → i < contents.length →
          expireOf contents child ≤ expireOf contents i := by
        rintro i ⟨positive, rfl⟩ within
        exact front i positive within isChild.lt (Nat.lt_succ_of_le (Nat.le_of_eq isChild.2))
      obtain ⟨heap', done, occupied', capacity⟩ := occupied.precolateDown_exchanges fuel choice
        isChild found foundChild less parentBelow least
      rw [if_pos parentBelow, done, ← exchange_expireOf found foundChild]
      apply SiftsTo.order occupied' (exchange_perm found foundChild)
      rw [capacity, full, occupied.curSize, occupied'.curSize]
      simp
    · obtain ⟨fault, failed⟩ := occupied.precolateDown_fails fuel full choice isChild found
        foundChild less (Nat.le_of_not_lt parentBelow)
      rw [if_neg parentBelow, failed]
      exact .fault fault
  · rw [if_neg less, occupied.precolateDown_stays _ found inner]
    · exact .order occupied (List.Perm.refl _) full
    · intro parent
      rw [chosen]
      exact Int.not_lt.mp fun earlier => less ⟨parent, earlier⟩

theorem siftLoop_sifts (occupied : Occupied heap contents) (fuel : Nat)
    (full : heap.capacity = heap.curSize) (inside : low ≤ contents.length) (inner : 2 * low ≤ contents.length + 1)
    (front : FrontOrdered low (expireOf contents) contents.length) :
    SiftsTo contents (shallowHeapify contents.length low (expireOf contents))
      (heap.siftLoop (fuel + 2) low) := by
  induction low generalizing heap contents with
  | zero => exact .order occupied (List.Perm.refl _) full
  | succ pos ih =>
      have step := occupied.precolateDown_sifts fuel full inside (by omega) front
      unfold shallowHeapify TimeHeap.siftLoop
      generalize sifted : shallowSift contents.length (expireOf contents) pos = order at step
      generalize heap.precolateDown (fuel + 2) pos = result at step
      cases step with
      | order occupied' same full' =>
          have later := front.sift sifted
          rw [← same.length_eq] at later inside inner ⊢
          exact (ih occupied' full' (by omega) (by omega) later).perm same
      | fault fault => exact .fault fault

/-- The array determines its timers. -/
theorem unique {contents' : List HeapEntry} (occupied : Occupied heap contents)
    (occupied' : Occupied heap contents') : contents = contents' := by
  have sizes : contents.length = contents'.length := by
    have size := occupied.curSize
    have size' := occupied'.curSize
    omega
  apply List.ext_getElem sizes
  intro i inside inside'
  have found := List.getElem?_eq_getElem inside
  have found' := List.getElem?_eq_getElem inside'
  have pointer := Option.some.inj (Except.ok.inj
    ((occupied.entry_eq found).symm.trans (occupied'.entry_eq found')))
  have expire := Except.ok.inj
    ((occupied.expireAt_eq found).symm.trans (occupied'.expireAt_eq found'))
  exact congrArg₂ HeapEntry.mk pointer expire

end Occupied

/-! ## The constructor -/

namespace TimeHeap

variable {heap heap' : TimeHeap γ υ}

theorem storeEntry_curSize {index : Int} {pointer : Ptr}
    (done : heap.storeEntry index pointer = .ok heap') : heap'.curSize = heap.curSize := by
  obtain ⟨cells, -, -, rfl⟩ := storeCell_eq_ok done
  rfl

theorem precolateDownLoop_curSize {fuel : Nat} {pos child last : Int}
    (done : heap.precolateDownLoop fuel pos child = .ok (heap', last)) :
    heap'.curSize = heap.curSize := by
  induction fuel generalizing heap pos child with
  | zero =>
      unfold precolateDownLoop at done
      split at done
      · cases done
      · cases done
        rfl
  | succ fuel ih =>
      unfold precolateDownLoop at done
      split at done
      · obtain ⟨chosen, -, done⟩ := bind_eq_ok_iff.mp done
        obtain ⟨below, -, done⟩ := bind_eq_ok_iff.mp done
        obtain ⟨here, -, done⟩ := bind_eq_ok_iff.mp done
        split at done
        · obtain ⟨pointer, -, done⟩ := bind_eq_ok_iff.mp done
          obtain ⟨stored, store, done⟩ := bind_eq_ok_iff.mp done
          exact (ih done).trans (storeEntry_curSize store)
        · cases done
          rfl
      · cases done
        rfl

theorem precolateDown_curSize {fuel : Nat} {pos : Int}
    (done : heap.precolateDown fuel pos = .ok heap') : heap'.curSize = heap.curSize := by
  unfold precolateDown at done
  split at done
  · cases done
    rfl
  · obtain ⟨tmp, -, done⟩ := bind_eq_ok_iff.mp done
    obtain ⟨child, -, done⟩ := bind_eq_ok_iff.mp done
    obtain ⟨⟨ended, last⟩, looped, stored⟩ := bind_eq_ok_iff.mp done
    exact (storeEntry_curSize stored).trans (precolateDownLoop_curSize looped)

theorem siftLoop_curSize {fuel low : Nat} (done : heap.siftLoop fuel low = .ok heap') :
    heap'.curSize = heap.curSize := by
  induction low generalizing heap with
  | zero =>
      cases done
      rfl
  | succ i ih =>
      unfold siftLoop at done
      obtain ⟨next, sifted, done⟩ := bind_eq_ok_iff.mp done
      exact (ih done).trans (precolateDown_curSize sifted)

/-- The timers of `rest` are copied behind those that are there already. -/
theorem copyLoop_eq_ok {copied rest : List HeapEntry} {cells : Block}
    (block : heap.blocks heap.array = some cells) (points : Points cells copied)
    (room : (copied ++ rest).length ≤ cells.length) :
    ∃ heap' cells', heap.copyLoop ((copied ++ rest).map fun entry => some entry.timer)
        copied.length rest.length = .ok heap' ∧
      heap'.blocks heap'.array = some cells' ∧ cells'.length = cells.length ∧
      Points cells' (copied ++ rest) ∧ heap'.curSize = heap.curSize ∧
      heap'.capacity = heap.capacity ∧ heap'.timers = heap.timers := by
  induction rest generalizing heap copied cells with
  | nil => exact ⟨heap, cells, rfl, block, rfl, by simpa using points, rfl, rfl, rfl⟩
  | cons entry rest ih =>
      rw [List.append_cons] at room ⊢
      have inside : copied.length < cells.length := by
        simp only [List.length_append, List.length_cons, List.length_nil] at room
        omega
      let next := heap.setCell cells copied.length (some entry.timer)
      have stored : next.blocks next.array =
          some (cells.set copied.length (some (some entry.timer))) := setCell_block
      obtain ⟨heap', cells', done, block', length, points', curSize, capacity, timers⟩ :=
        ih stored (points.append inside entry) (by simpa using room)
      refine ⟨heap', cells', ?_, block', by simpa using length, points', curSize, capacity, timers⟩
      rw [List.length_append] at done
      have given : ((copied ++ [entry] ++ rest).map fun entry => some entry.timer)[copied.length]? =
          some (some entry.timer) := by simp
      rw [List.length_cons, copyLoop, given]
      simp only [storeEntry_eq block inside, ok_bind]
      exact done

end TimeHeap

namespace TimeHeap

variable (fuel : Nat) (timers : Heap (HeapTimer γ υ)) {given : List HeapEntry} {capacity : Int}
  (block : Addr)

/-- `time_heap(cur_array, size, capacity)` returns a heap of the `given` timers. -/
def BuildsHeap (fuel : Nat) (timers : Heap (HeapTimer γ υ)) (given : List HeapEntry)
    (capacity : Int) (block : Addr) : Prop :=
  ∃ heap contents, ofArray fuel timers (given.map fun entry => some entry.timer) given.length
      capacity block = .ok (some heap) ∧
    heap.curSize = given.length ∧ Occupied heap contents ∧ contents.Perm given ∧
    HeapOrdered (expireOf contents) contents.length

/-- Without timers nothing is sifted. -/
theorem ofArray_nil (low : 0 ≤ capacity) :
    ∃ heap : TimeHeap γ υ, ofArray fuel timers [] 0 capacity block = .ok (some heap) ∧
      heap.curSize = capacity ∧ (capacity = 0 → Occupied heap []) := by
  have accepted : ¬ (capacity < 0 ∨ capacity < 0) := by omega
  unfold ofArray
  rw [if_neg accepted]
  refine ⟨_, rfl, rfl, ?_⟩
  rintro rfl
  exact ⟨⟨_, Heap.write_self _ _ _, rfl, ⟨Nat.le_refl _, fun i entry found => nomatch found⟩⟩,
    rfl, by dsimp only; decide, fun entry member => nomatch member⟩

/-- The constructor up to the sifts, of which the first one is that of the last parent, or
would be if `capacity` entries were in use. -/
theorem ofArray_eq (started : given ≠ []) (room : given.length ≤ capacity) :
    ∃ (copied : TimeHeap γ υ) (cells : Block), copied.blocks copied.array = some cells ∧
      capacity = cells.length ∧ Points cells given ∧ copied.curSize = capacity ∧
      copied.capacity = capacity ∧ copied.timers = timers ∧
      ofArray fuel timers (given.map fun entry => some entry.timer) given.length capacity block =
        (copied.siftLoop fuel ((capacity - 1).tdiv 2 + 1).toNat).map some := by
  have positive := List.length_pos_iff.mpr started
  have accepted : ¬ (capacity < given.length ∨ capacity < 0) := by omega
  let fresh : TimeHeap γ υ :=
    { array := block, capacity, curSize := capacity, timers
      blocks := Heap.empty.write block (List.replicate capacity.toNat (some none)) }
  have unset : fresh.blocks fresh.array = some (List.replicate capacity.toNat (some none)) :=
    Heap.write_self _ _ _
  have nothing : Points (List.replicate capacity.toNat (some none)) [] :=
    ⟨Nat.zero_le _, fun i entry found => nomatch found⟩
  have fits : ([] ++ given).length ≤ (List.replicate capacity.toNat (some (none : Ptr))).length := by
    rw [List.nil_append, List.length_replicate]
    omega
  obtain ⟨copied, cells, done, found, length, points, curSize, capacity', timers'⟩ :=
    copyLoop_eq_ok unset nothing fits
  refine ⟨copied, cells, found, ?_, points, curSize, capacity', timers', ?_⟩
  · rw [length, List.length_replicate]
    omega
  · have sized : (given.length : Int) ≠ 0 := by omega
    simp only [List.nil_append, List.length_nil] at done
    unfold ofArray
    rw [if_neg accepted]
    dsimp only
    rw [if_pos sized, Int.toNat_natCast, done, ok_bind, curSize]
    cases copied.siftLoop fuel ((capacity - 1).tdiv 2 + 1).toNat <;> rfl

/-- `cur_size` does not come from `size`. -/
theorem ofArray_curSize {heap : TimeHeap γ υ} (room : given.length ≤ capacity)
    (done : ofArray fuel timers (given.map fun entry => some entry.timer) given.length capacity
      block = .ok (some heap)) : heap.curSize = capacity := by
  by_cases started : given = []
  · subst started
    obtain ⟨heap', done', curSize, -⟩ := ofArray_nil fuel timers block room
    obtain rfl := Option.some.inj (Except.ok.inj (done.symm.trans done'))
    exact curSize
  · obtain ⟨copied, cells, -, -, -, curSize, -, -, built⟩ := ofArray_eq fuel timers block
      started room
    rw [built] at done
    cases sifted : copied.siftLoop fuel ((capacity - 1).tdiv 2 + 1).toNat with
    | error fault =>
        rw [sifted] at done
        exact nomatch done
    | ok heap' =>
        rw [sifted] at done
        obtain rfl := Option.some.inj (Except.ok.inj done)
        exact (siftLoop_curSize sifted).trans curSize

theorem buildsHeap_nil : BuildsHeap fuel timers [] 0 block := by
  obtain ⟨heap, done, curSize, occupied⟩ := ofArray_nil fuel timers block (Int.le_refl 0)
  exact ⟨heap, [], done, curSize, occupied rfl, List.Perm.refl _,
    fun i _ inside => absurd inside (Nat.not_lt_zero i)⟩

/-- With an entry for each timer and no other, the constructor sifts the given array. -/
theorem buildsHeap_full (stored : ∀ entry ∈ given,
      (timers entry.timer).map HeapTimer.expire = some entry.expire) (started : given ≠ [])
    (small : (given.length : Int) ≤ 2147483647) :
    BuildsHeap (fuel + 2) timers given given.length block ↔
      ∃ key, shallowHeapify given.length ((given.length - 1) / 2 + 1) (expireOf given) = some key ∧
        HeapOrdered key given.length := by
  have positive := List.length_pos_iff.mpr started
  obtain ⟨copied, cells, found, length, points, curSize, capacity, timers', built⟩ :=
    ofArray_eq (fuel + 2) timers block started (Int.le_refl _)
  have occupied : Occupied copied given :=
    ⟨⟨cells, found, capacity.trans length, points⟩, curSize, capacity ▸ small,
      fun entry member => timers' ▸ stored entry member⟩
  have last : (((given.length : Int) - 1).tdiv 2 + 1).toNat = (given.length - 1) / 2 + 1 := by
    rw [Int.tdiv_eq_ediv_of_nonneg (by omega)]
    omega
  have front : FrontOrdered ((given.length - 1) / 2 + 1) (expireOf given) given.length :=
    fun i positive inside behind => by omega
  have sifts := occupied.siftLoop_sifts fuel (capacity.trans curSize.symm) (by omega) (by omega)
    front
  unfold BuildsHeap
  rw [built, last]
  generalize shallowHeapify given.length ((given.length - 1) / 2 + 1) (expireOf given) = sifted
    at sifts
  generalize copied.siftLoop (fuel + 2) ((given.length - 1) / 2 + 1) = result at sifts
  cases sifts with
  | order occupied' same full =>
      constructor
      · rintro ⟨heap, contents, done, size, holds, -, ordered⟩
        obtain rfl := Option.some.inj (Except.ok.inj done)
        obtain rfl := occupied'.unique holds
        exact ⟨_, rfl, same.length_eq ▸ ordered⟩
      · rintro ⟨key, sifted, ordered⟩
        obtain rfl := Option.some.inj sifted
        refine ⟨_, _, rfl, ?_, occupied', same, same.length_eq.symm ▸ ordered⟩
        rw [occupied'.curSize, same.length_eq]
  | fault fault =>
      constructor
      · rintro ⟨heap, contents, done, -⟩
        exact nomatch done
      · rintro ⟨key, sifted, -⟩
        exact nomatch sifted

end TimeHeap

/-- The constructor builds a heap exactly if every entry holds a timer, and no timer has to
sink by more than one level, or to an entry without children. -/
theorem timeHeap_ofArray_iff {timers : Heap (HeapTimer γ υ)} {given : List HeapEntry}
    (stored : ∀ entry ∈ given, (timers entry.timer).map HeapTimer.expire = some entry.expire)
    {capacity : Int} (room : given.length ≤ capacity) (small : capacity ≤ 2147483647)
    {fuel : Nat} (enough : 2 ≤ fuel) (block : Addr) :
    TimeHeap.BuildsHeap fuel timers given capacity block ↔
      capacity = given.length ∧ ∀ pos, SinksOnce (expireOf given) given.length pos := by
  obtain ⟨fuel, rfl⟩ : ∃ smaller, fuel = smaller + 2 := ⟨fuel - 2, by omega⟩
  have sized : TimeHeap.BuildsHeap (fuel + 2) timers given capacity block →
      capacity = given.length := by
    rintro ⟨heap, contents, done, size, -⟩
    exact (TimeHeap.ofArray_curSize _ _ _ room done).symm.trans size
  by_cases full : capacity = given.length
  · subst full
    rw [and_iff_right rfl]
    by_cases started : given = []
    · subst started
      refine ⟨fun _ pos child _ i j _ _ inside => ?_, fun _ => TimeHeap.buildsHeap_nil _ _ _⟩
      exact absurd inside (Nat.not_lt_zero i)
    · rw [TimeHeap.buildsHeap_full _ _ _ stored started small]
      exact shallowHeapify_iff (by omega)
  · exact ⟨fun builds => absurd (sized builds) full, fun sinks => absurd sinks.1 full⟩

def fourNodes : Heap (HeapTimer Unit Unit) :=
  (((Heap.empty.write 1 ⟨6, none, ()⟩).write 2 ⟨5, none, ()⟩).write 3 ⟨7, none, ()⟩).write 4
    ⟨8, none, ()⟩

/-- The first of these timers sinks below the second one. -/
theorem timeHeap_ofArray_iff_fourNodes :
    TimeHeap.BuildsHeap 2 fourNodes [⟨1, 6⟩, ⟨2, 5⟩, ⟨3, 7⟩, ⟨4, 8⟩] 4 0 := by
  refine (timeHeap_ofArray_iff (by decide) (by decide) (by decide) (by decide) 0).mpr ⟨rfl, ?_⟩
  have leaves : [(⟨1, 6⟩ : HeapEntry), ⟨2, 5⟩, ⟨3, 7⟩, ⟨4, 8⟩].length ≤ 2 * 2 + 1 := by decide
  refine (shallowHeapify_iff leaves).mp ⟨_, rfl, ?_⟩
  intro i positive inside
  obtain rfl | rfl | rfl : i = 1 ∨ i = 2 ∨ i = 3 := by
    simp only [List.length_cons, List.length_nil] at inside
    omega
  all_goals decide

/-- Two timers in order, in an array for three: the third entry is compared. -/
theorem timeHeap_ofArray_reads_null :
    TimeHeap.ofArray 2 fourNodes [some 2, some 1] 2 3 0 = .error .nullDereference ∧
      ¬ TimeHeap.BuildsHeap 2 fourNodes [⟨2, 5⟩, ⟨1, 6⟩] 3 0 := by
  have failed : TimeHeap.ofArray 2 fourNodes [some 2, some 1] 2 3 0 = .error .nullDereference := rfl
  refine ⟨failed, ?_⟩
  rintro ⟨heap, contents, done, -⟩
  exact nomatch failed.symm.trans done

end HPLinuxServer.Timer
