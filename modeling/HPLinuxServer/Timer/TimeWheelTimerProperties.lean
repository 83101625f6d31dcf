import HPLinuxServer.Timer.TimeWheelTimer
import Mathlib.Data.List.Nodup

/-!
# What the slots of a time wheel hold

Each slot is a linked copy of a list of waiting timers. A member function works
on the list of one slot and leaves the other slots, and every object outside
that list, as they were.
-/

set_option autoImplicit false

namespace HPLinuxServer.Timer

open Memory

/-- A live timer of a slot; its callback is unset until its owner sets it. -/
structure Waiting (γ υ : Type) where
  timer : Addr
  rotation : Int
  callback : Option (γ × υ)
  deriving DecidableEq, Repr

variable {γ υ ω : Type}

namespace Waiting

def addresses (waiting : List (Waiting γ υ)) : List Addr := waiting.map Waiting.timer

@[simp] theorem addresses_nil : addresses ([] : List (Waiting γ υ)) = [] := rfl

@[simp] theorem addresses_cons (entry : Waiting γ υ) (waiting : List (Waiting γ υ)) :
    addresses (entry :: waiting) = entry.timer :: addresses waiting := rfl

@[simp] theorem addresses_append (left right : List (Waiting γ υ)) :
    addresses (left ++ right) = addresses left ++ addresses right := List.map_append

theorem mem_addresses {waiting : List (Waiting γ υ)} {entry : Waiting γ υ}
    (member : entry ∈ waiting) : entry.timer ∈ addresses waiting := List.mem_map_of_mem member

end Waiting

open Waiting

def TwTimer.payload (timer : TwTimer γ υ) : Int × Int × Option (γ × υ) :=
  (timer.timeSlot, timer.rotation, timer.callback)

/-- The timer object of `entry` carries its data and the number of its slot. -/
def Waiting.Stored (timers : Heap (TwTimer γ υ)) (index : Int) (entry : Waiting γ υ) : Prop :=
  (timers entry.timer).map TwTimer.payload = some (index, entry.rotation, entry.callback)

namespace Waiting.Stored

variable {timers : Heap (TwTimer γ υ)} {index : Int} {entry : Waiting γ υ}

theorem found (stored : entry.Stored timers index) :
    ∃ node, timers entry.timer = some node ∧ node.timeSlot = index ∧
      node.rotation = entry.rotation ∧ node.callback = entry.callback := by
  obtain ⟨node, found, same⟩ := Option.map_eq_some_iff.mp stored
  simp only [TwTimer.payload, Prod.mk.injEq] at same
  exact ⟨node, found, same⟩

theorem modify (stored : entry.Stored timers index) (address : Addr)
    {change : TwTimer γ υ → TwTimer γ υ}
    (kept : ∀ node, (change node).payload = node.payload) :
    entry.Stored (timers.modify address change) index := by
  unfold Waiting.Stored
  rw [Heap.modify_map _ _ _ TwTimer.payload kept]
  exact stored

theorem setNext (stored : entry.Stored timers index) (address : Addr) (link : Ptr) :
    entry.Stored (timers.setNext address link) index :=
  stored.modify address fun _ => rfl

theorem setPrev (stored : entry.Stored timers index) (address : Addr) (link : Ptr) :
    entry.Stored (timers.setPrev address link) index :=
  stored.modify address fun _ => rfl

theorem frame (stored : entry.Stored timers index) {timers' : Heap (TwTimer γ υ)}
    (same : timers' entry.timer = timers entry.timer) : entry.Stored timers' index := by
  unfold Waiting.Stored
  rw [same]
  exact stored

end Waiting.Stored

/-- Slot `index` links the timers of `waiting` in this order. -/
structure Bucket (wheel : TimeWheelTimer γ υ ω) (index : Int) (waiting : List (Waiting γ υ)) :
    Prop where
  head : wheel.slots index = (addresses waiting).head?
  linked : Segment wheel.timers none (addresses waiting) none
  distinct : (addresses waiting).Nodup
  stored : ∀ entry ∈ waiting, entry.Stored wheel.timers index

/-- Only slot `index` and the objects at `inside` have changed. -/
structure Confined (index : Int) (inside : List Addr) (wheel wheel' : TimeWheelTimer γ υ ω) :
    Prop where
  slots : ∀ other, other ≠ index → wheel'.slots other = wheel.slots other
  cells : ∀ address, address ∉ inside → wheel'.timers address = wheel.timers address
  curSlot : wheel'.curSlot = wheel.curSlot

namespace Confined

variable {index : Int} {inside : List Addr}

theorem refl (wheel : TimeWheelTimer γ υ ω) : Confined index inside wheel wheel :=
  ⟨fun _ _ => rfl, fun _ _ => rfl, rfl⟩

theorem trans {first second third : TimeWheelTimer γ υ ω} (left : Confined index inside first second)
    (right : Confined index inside second third) : Confined index inside first third where
  slots other different := (right.slots other different).trans (left.slots other different)
  cells address outside := (right.cells address outside).trans (left.cells address outside)
  curSlot := right.curSlot.trans left.curSlot

theorem mono {more : List Addr} {wheel wheel' : TimeWheelTimer γ υ ω}
    (confined : Confined index inside wheel wheel') (covered : ∀ address ∈ inside, address ∈ more) :
    Confined index more wheel wheel' where
  slots := confined.slots
  cells address outside := confined.cells address fun member => outside (covered address member)
  curSlot := confined.curSlot

theorem erase {address : Addr} {wheel wheel' : TimeWheelTimer γ υ ω}
    (confined : Confined index inside wheel wheel') (member : address ∈ inside) :
    Confined index inside wheel { wheel' with timers := wheel'.timers.erase address } where
  slots := confined.slots
  cells other outside := by
    have different : other ≠ address := fun same => outside (same ▸ member)
    exact (Heap.erase_other _ different).trans (confined.cells other outside)
  curSlot := confined.curSlot

end Confined

namespace TimeWheelTimer

variable {wheel : TimeWheelTimer γ υ ω}

theorem slot_eq {index : Int} (low : 0 ≤ index) (high : index < N) :
    wheel.slot index = .ok (wheel.slots index) := if_pos ⟨low, high⟩

theorem storeSlot_eq {index : Int} (low : 0 ≤ index) (high : index < N) (timer : Ptr) :
    wheel.storeSlot index timer = .ok { wheel with
      slots := fun other => if other = index then timer else wheel.slots other } :=
  if_pos ⟨low, high⟩

theorem load_some {address : Addr} (node : TwTimer γ υ)
    (found : wheel.timers address = some node) : wheel.load (some address) = .ok node :=
  Heap.load_some found

theorem storeNext_some {address : Addr} (node : TwTimer γ υ)
    (found : wheel.timers address = some node) (link : Ptr) :
    wheel.storeNext (some address) link =
      .ok { wheel with timers := wheel.timers.setNext address link } := by
  unfold storeNext
  rw [Heap.store_some found]
  rfl

theorem storePrev_some {address : Addr} (node : TwTimer γ υ)
    (found : wheel.timers address = some node) (link : Ptr) :
    wheel.storePrev (some address) link =
      .ok { wheel with timers := wheel.timers.setPrev address link } := by
  unfold storePrev
  rw [Heap.store_some found]
  rfl

theorem delete_some {address : Addr} (node : TwTimer γ υ)
    (found : wheel.timers address = some node) :
    wheel.delete (some address) = .ok { wheel with timers := wheel.timers.erase address } := by
  unfold delete
  rw [Heap.delete_some found]
  rfl

end TimeWheelTimer

namespace Bucket

variable {wheel : TimeWheelTimer γ υ ω} {index : Int}

theorem frame {waiting : List (Waiting γ υ)} (bucket : Bucket wheel index waiting)
    {wheel' : TimeWheelTimer γ υ ω} (slots : wheel'.slots index = wheel.slots index)
    (cells : ∀ address ∈ addresses waiting, wheel'.timers address = wheel.timers address) :
    Bucket wheel' index waiting where
  head := slots.trans bucket.head
  linked := bucket.linked.frame cells
  distinct := bucket.distinct
  stored entry member := (bucket.stored entry member).frame (cells _ (mem_addresses member))

/-- Every timer knows its slot, so two slots share none. -/
theorem disjoint {other : Int} {here there : List (Waiting γ υ)} (bucket : Bucket wheel index here)
    (bucket' : Bucket wheel other there) (different : other ≠ index) :
    ∀ address ∈ addresses there, address ∉ addresses here := by
  intro address thereMember hereMember
  obtain ⟨entry, member, rfl⟩ := List.mem_map.mp thereMember
  obtain ⟨entry', member', same⟩ := List.mem_map.mp hereMember
  obtain ⟨node, found, slotThere, -⟩ := (bucket'.stored entry member).found
  obtain ⟨node', found', slotHere, -⟩ := (bucket.stored entry' member').found
  rw [same] at found'
  obtain rfl : node' = node := Option.some.inj (found'.symm.trans found)
  exact different (slotThere.symm.trans slotHere)

theorem elsewhere {other : Int} {there : List (Waiting γ υ)} {inside : List Addr}
    {wheel' : TimeWheelTimer γ υ ω} (bucket : Bucket wheel other there)
    (confined : Confined index inside wheel wheel') (different : other ≠ index)
    (outside : ∀ address ∈ addresses there, address ∉ inside) : Bucket wheel' other there :=
  bucket.frame (confined.slots other different) fun address member =>
    confined.cells address (outside address member)

theorem node {left right : List (Waiting γ υ)} {entry : Waiting γ υ}
    (bucket : Bucket wheel index (left ++ entry :: right)) :
    ∃ node, wheel.timers entry.timer = some node ∧ node.timeSlot = index ∧
      node.rotation = entry.rotation ∧ node.callback = entry.callback ∧
      node.prev = (addresses left).getLast? ∧ node.next = (addresses right).head? := by
  obtain ⟨node, found, timeSlot, rotation, callback⟩ := (bucket.stored entry (by simp)).found
  have linked := bucket.linked
  rw [addresses_append, addresses_cons, segment_middle_iff] at linked
  obtain ⟨-, ⟨node', found', back, forward⟩, -⟩ := linked
  obtain rfl : node' = node := Option.some.inj (found'.symm.trans found)
  exact ⟨node', found, timeSlot, rotation, callback, by simpa using back, by simpa using forward⟩

theorem fresh_of_middle {left right : List (Waiting γ υ)} {entry : Waiting γ υ}
    (bucket : Bucket wheel index (left ++ entry :: right)) :
    entry.timer ∉ addresses (left ++ right) := by
  have distinct := bucket.distinct
  simp only [addresses_append, addresses_cons] at distinct ⊢
  exact (List.nodup_cons.mp (List.nodup_middle.mp distinct)).1

theorem some_timer_eq_head_iff {left right : List (Waiting γ υ)} {entry : Waiting γ υ}
    (bucket : Bucket wheel index (left ++ entry :: right)) :
    some entry.timer = wheel.slots index ↔ left = [] := by
  rw [bucket.head]
  cases left with
  | nil => simp
  | cons first left =>
      have outside := (List.nodup_cons.mp bucket.distinct).1
      simp only [List.cons_append, addresses_cons, List.head?_cons, Option.some.injEq,
        reduceCtorEq, iff_false]
      rintro same
      exact outside (by simp [← same])

end Bucket

/-! ## Adding a timer -/

namespace TimeWheelTimer

theorem one_le_offset {timeout : Int} (valid : 0 ≤ timeout) : 1 ≤ offset timeout := by
  have quotient : timeout.tdiv SI = timeout := Int.tdiv_one timeout
  unfold offset
  rw [quotient]
  split <;> omega

theorem offset_eq {timeout : Int} (valid : 0 ≤ timeout) : offset timeout = max 1 (timeout / SI) := by
  have quotient : timeout.tdiv SI = timeout := Int.tdiv_one timeout
  have quotient' : timeout / SI = timeout := Int.ediv_one timeout
  unfold offset
  rw [quotient, quotient']
  split <;> omega

variable {wheel : TimeWheelTimer γ υ ω} {index : Int}

/-- An object that is linked nowhere goes in front of the slot. -/
theorem pushTimer_spec (low : 0 ≤ index) (high : index < N) {entry : Waiting γ υ}
    {waiting : List (Waiting γ υ)} (bucket : Bucket wheel index waiting)
    (stored : entry.Stored wheel.timers index) {node : TwTimer γ υ}
    (found : wheel.timers entry.timer = some node) (noPrev : node.prev = none)
    (noNext : node.next = none) (fresh : entry.timer ∉ addresses waiting) :
    ∃ wheel', wheel.pushTimer (some entry.timer) index = .ok wheel' ∧
      Bucket wheel' index (entry :: waiting) ∧
      Confined index (entry.timer :: addresses waiting) wheel wheel' ∧
      wheel'.world = wheel.world := by
  unfold pushTimer
  rw [slot_eq low high, bucket.head]
  cases waiting with
  | nil =>
      refine ⟨{ wheel with
        slots := fun other => if other = index then some entry.timer else wheel.slots other },
        ?_, ⟨?_, ?_, ?_, ?_⟩, ⟨?_, ?_, rfl⟩, rfl⟩
      · simp only [ok_bind, addresses_nil, List.head?_nil, Option.isNone_none, ↓reduceIte]
        exact storeSlot_eq low high _
      · simp
      · exact ⟨⟨node, found, noPrev, noNext⟩, trivial⟩
      · simp
      · intro other member
        obtain rfl : other = entry := by simpa using member
        exact stored
      · intro other different
        simp [different]
      · intro address _
        rfl
  | cons first rest =>
      obtain ⟨firstNode, firstFound, -⟩ := (bucket.stored first (by simp)).found
      have notFirst : entry.timer ≠ first.timer := fun same => fresh (by simp [same])
      have apart : first.timer ≠ entry.timer := fun same => notFirst same.symm
      refine ⟨{ wheel with
        slots := fun other => if other = index then some entry.timer else wheel.slots other
        timers := (wheel.timers.setNext entry.timer (some first.timer)).setPrev first.timer
          (some entry.timer) }, ?_, ⟨?_, ?_, ?_, ?_⟩, ⟨?_, ?_, rfl⟩, rfl⟩
      · simp only [ok_bind, addresses_cons, List.head?_cons, Option.isNone_some,
          Bool.false_eq_true, ↓reduceIte]
        rw [storeNext_some node found]
        simp only [ok_bind]
        rw [load_some { node with next := some first.timer } (by simp [found])]
        simp only [ok_bind]
        rw [storePrev_some firstNode (by simp [apart, firstFound])]
        simp only [ok_bind]
        exact storeSlot_eq low high _
      · simp
      · rw [Heap.setNext_setPrev_comm _ notFirst]
        exact Segment.push bucket.linked bucket.distinct fresh found noPrev
      · exact List.nodup_cons.mpr ⟨fresh, bucket.distinct⟩
      · intro other member
        apply Waiting.Stored.setPrev
        apply Waiting.Stored.setNext
        rcases List.mem_cons.mp member with rfl | member
        · exact stored
        · exact bucket.stored other member
      · intro other different
        simp [different]
      · intro address outside
        simp only [addresses_cons, List.mem_cons, not_or] at outside
        simp [outside.1, outside.2.1]

/-- The new timer, its callback still unset, is put in front of its slot. -/
theorem addTimer_spec {timeout : Int} (valid : 0 ≤ timeout) (cursor : 0 ≤ wheel.curSlot)
    (room : wheel.curSlot + offset timeout ≤ 2147483647) {address : Addr}
    (position : index = (wheel.curSlot + offset timeout).tmod N) {waiting : List (Waiting γ υ)}
    (bucket : Bucket wheel index waiting) (fresh : address ∉ addresses waiting) :
    ∃ wheel', wheel.addTimer timeout address = .ok (wheel', some address) ∧
      Bucket wheel' index (⟨address, (offset timeout).tdiv N, none⟩ :: waiting) ∧
      Confined index (address :: addresses waiting) wheel wheel' ∧
      wheel'.world = wheel.world := by
  have one := one_le_offset valid
  have low : 0 ≤ index := position ▸ Int.tmod_nonneg _ (by omega)
  have high : index < N := position ▸ Int.tmod_lt_of_pos _ (by decide)
  let timer : TwTimer γ υ := { rotation := (offset timeout).tdiv N, timeSlot := index }
  have made : Bucket { wheel with timers := wheel.timers.write address timer } index waiting :=
    bucket.frame rfl fun other member => Heap.write_other _ _ fun same => fresh (same ▸ member)
  have stored : Waiting.Stored (wheel.timers.write address timer) index
      ⟨address, (offset timeout).tdiv N, none⟩ := by
    simp [Waiting.Stored, TwTimer.payload, timer]
  obtain ⟨wheel', done, bucket', confined, world⟩ :=
    pushTimer_spec low high made stored (Heap.write_self _ _ _) rfl rfl fresh
  refine ⟨wheel', ?_, bucket', ?_, world⟩
  · unfold addTimer
    rw [if_neg (by omega), checkInt_eq_ok (by omega) room]
    simp only [ok_bind, ← position]
    rw [done]
    rfl
  · refine ⟨confined.slots, fun other outside => ?_, confined.curSlot⟩
    rw [confined.cells other outside]
    exact Heap.write_other _ _ fun same => outside (by simp [same])

theorem addTimer_negative {timeout : Int} (negative : timeout < 0) (address : Addr) :
    wheel.addTimer timeout address = .ok (wheel, none) := by
  unfold addTimer
  rw [if_pos negative]
  rfl

theorem storeCallback_spec {entry : Waiting γ υ} {waiting : List (Waiting γ υ)}
    (bucket : Bucket wheel index (entry :: waiting)) (cbFunc : γ) (userData : υ) :
    ∃ wheel', wheel.storeCallback (some entry.timer) cbFunc userData = .ok wheel' ∧
      Bucket wheel' index ({ entry with callback := some (cbFunc, userData) } :: waiting) ∧
      Confined index (addresses (entry :: waiting)) wheel wheel' ∧
      wheel'.world = wheel.world := by
  obtain ⟨node, found, timeSlot, rotation, -⟩ := (bucket.stored entry (by simp)).found
  have outside := (List.nodup_cons.mp bucket.distinct).1
  refine ⟨{ wheel with timers := wheel.timers.modify entry.timer fun node =>
    { node with callback := some (cbFunc, userData) } }, ?_, ⟨?_, ?_, ?_, ?_⟩, ⟨?_, ?_, rfl⟩, rfl⟩
  · unfold storeCallback
    rw [Heap.store_some found]
    rfl
  · exact bucket.head
  · exact bucket.linked.modify entry.timer (fun _ => rfl) (fun _ => rfl)
  · exact bucket.distinct
  · intro other member
    rcases List.mem_cons.mp member with rfl | member
    · simp [Waiting.Stored, TwTimer.payload, found, timeSlot, rotation]
    · apply (bucket.stored other (List.mem_cons_of_mem _ member)).frame
      exact Heap.modify_other _ _ fun same => outside (same ▸ mem_addresses member)
  · intro other _
    rfl
  · intro address away
    exact Heap.modify_other _ _ fun same => away (by simp [same])

/-! ## Taking a timer out -/

/-- A timer behind the head leaves its neighbours linked to each other; its own
object stays as it was. -/
theorem unlinkInner_spec {left right : List (Waiting γ υ)} {entry : Waiting γ υ}
    (bucket : Bucket wheel index (left ++ entry :: right)) (inner : left ≠ []) :
    ∃ wheel', wheel.unlinkInner (some entry.timer) = .ok wheel' ∧
      Bucket wheel' index (left ++ right) ∧
      Confined index (addresses (left ++ right)) wheel wheel' ∧ wheel'.world = wheel.world := by
  obtain ⟨front, last, rfl⟩ : ∃ front last, left = front ++ [last] :=
    ⟨left.dropLast, left.getLast inner, (List.dropLast_append_getLast inner).symm⟩
  obtain ⟨node, found, -, -, -, back, forward⟩ := bucket.node
  have fresh := bucket.fresh_of_middle
  have linked := bucket.linked
  have distinct := bucket.distinct
  have hasPrev : node.prev = some last.timer := by simpa using back
  have notLast : entry.timer ≠ last.timer := fun same => fresh (by simp [same])
  obtain ⟨lastNode, lastFound, -⟩ := (bucket.stored last (by simp)).found
  unfold unlinkInner
  simp only [load_some node found, ok_bind, hasPrev]
  rw [storeNext_some lastNode lastFound]
  simp only [ok_bind]
  rw [load_some node (by simp [notLast, found])]
  simp only [ok_bind]
  cases right with
  | nil =>
      have noNext : node.next = none := by simpa using forward
      simp only [noNext, Option.isSome_none, Bool.false_eq_true, ↓reduceIte]
      refine ⟨{ wheel with timers := wheel.timers.setNext last.timer none }, rfl,
        ⟨?_, ?_, ?_, ?_⟩, ⟨?_, ?_, rfl⟩, rfl⟩
      · rw [bucket.head]
        cases front <;> simp
      · simp only [addresses_append, addresses_cons, addresses_nil] at linked distinct ⊢
        have inside := (List.nodup_append.mp distinct).1
        have outside : last.timer ∉ addresses front := fun member => by
          simpa using (List.nodup_append.mp inside).2.2 last.timer member last.timer (by simp)
        simpa using (segment_append_iff.mp linked).1.setNext_last outside none
      · rw [addresses_append] at distinct
        simpa using (List.nodup_append.mp distinct).1
      · intro other member
        apply Waiting.Stored.setNext
        exact bucket.stored other (by simp at member ⊢; tauto)
      · intro other _
        rfl
      · intro address outside
        exact Heap.setNext_other _ _ fun same => outside (by simp [same])
  | cons next right =>
      have hasNext : node.next = some next.timer := by simpa using forward
      have split : Bucket wheel index ((front ++ [last] ++ [entry]) ++ next :: right) := by
        simpa using bucket
      have apart : last.timer ≠ next.timer := fun same => split.fresh_of_middle (by simp [same])
      obtain ⟨nextNode, nextFound, -⟩ := (bucket.stored next (by simp)).found
      simp only [hasNext, Option.isSome_some, ↓reduceIte]
      rw [hasPrev, storePrev_some nextNode (by simp [apart.symm, nextFound])]
      refine ⟨{ wheel with
          timers := (wheel.timers.setNext last.timer (some next.timer)).setPrev next.timer
            (some last.timer) }, rfl, ⟨?_, ?_, ?_, ?_⟩, ⟨?_, ?_, rfl⟩, rfl⟩
      · rw [bucket.head]
        cases front <;> simp
      · simp only [addresses_append, addresses_cons, addresses_nil] at linked distinct ⊢
        rw [Heap.setNext_setPrev_comm _ apart]
        exact linked.unlink distinct
      · simp only [addresses_append, addresses_cons] at distinct ⊢
        exact (List.nodup_cons.mp (List.nodup_middle.mp distinct)).2
      · intro other member
        apply Waiting.Stored.setPrev
        apply Waiting.Stored.setNext
        exact bucket.stored other (by simp at member ⊢; tauto)
      · intro other _
        rfl
      · intro address outside
        have notLast : address ≠ last.timer := fun same => outside (by simp [same])
        have notNext : address ≠ next.timer := fun same => outside (by simp [same])
        simp [notLast, notNext]

end TimeWheelTimer

namespace Bucket

variable {wheel : TimeWheelTimer γ υ ω} {index : Int}

theorem without_only {entry : Waiting γ υ} : Bucket { wheel with
    slots := fun other => if other = index then none else wheel.slots other
    timers := wheel.timers.erase entry.timer } index [] :=
  ⟨by simp, trivial, by simp, by simp⟩

theorem without_first {entry next : Waiting γ υ} {rest : List (Waiting γ υ)}
    (bucket : Bucket wheel index (entry :: next :: rest)) : Bucket { wheel with
      slots := fun other => if other = index then some next.timer else wheel.slots other
      timers := (wheel.timers.setPrev next.timer none).erase entry.timer } index
      (next :: rest) := by
  have outside := (List.nodup_cons.mp bucket.distinct).1
  have distinct := (List.nodup_cons.mp bucket.distinct).2
  constructor
  · simp
  · apply (bucket.linked.2.setPrev_first (List.nodup_cons.mp distinct).1 none).frame
    intro address member
    exact Heap.erase_other _ fun same => outside (same ▸ member)
  · exact distinct
  · intro other member
    apply ((bucket.stored other (List.mem_cons_of_mem _ member)).setPrev next.timer none).frame
    exact Heap.erase_other _ fun same => outside (same ▸ mem_addresses member)

theorem erase {waiting : List (Waiting γ υ)} (bucket : Bucket wheel index waiting)
    {address : Addr} (outside : address ∉ addresses waiting) :
    Bucket { wheel with timers := wheel.timers.erase address } index waiting :=
  bucket.frame rfl fun _ member => Heap.erase_other _ fun same => outside (same ▸ member)

end Bucket

namespace TimeWheelTimer

variable {wheel : TimeWheelTimer γ υ ω} {index : Int}

theorem delTimer_spec (low : 0 ≤ index) (high : index < N) {left right : List (Waiting γ υ)}
    {entry : Waiting γ υ} (bucket : Bucket wheel index (left ++ entry :: right)) :
    ∃ wheel', wheel.delTimer (some entry.timer) = .ok wheel' ∧
      Bucket wheel' index (left ++ right) ∧
      Confined index (addresses (left ++ entry :: right)) wheel wheel' ∧
      wheel'.timers entry.timer = none ∧ wheel'.world = wheel.world := by
  obtain ⟨node, found, timeSlot, -, -, -, forward⟩ := bucket.node
  have fresh := bucket.fresh_of_middle
  unfold delTimer
  simp only [load_some node found, ok_bind, timeSlot, slot_eq low high,
    bucket.some_timer_eq_head_iff, storeSlot_eq low high]
  cases left with
  | nil =>
      simp only [↓reduceIte]
      cases right with
      | nil =>
          have noNext : node.next = none := by simpa using forward
          simp only [noNext, Option.isSome_none, Bool.false_eq_true, ↓reduceIte, pure_eq_ok,
            ok_bind]
          rw [delete_some node (by exact found)]
          refine ⟨{ wheel with
            slots := fun other => if other = index then none else wheel.slots other
            timers := wheel.timers.erase entry.timer }, rfl, Bucket.without_only, ⟨?_, ?_, rfl⟩,
            by simp, rfl⟩
          · intro other different
            simp [different]
          · intro address outside
            exact Heap.erase_other _ fun same => outside (by simp [same])
      | cons next rest =>
          have hasNext : node.next = some next.timer := by simpa using forward
          have notNext : entry.timer ≠ next.timer := fun same => fresh (by simp [same])
          obtain ⟨nextNode, nextFound, -⟩ := (bucket.stored next (by simp)).found
          simp only [hasNext, Option.isSome_some, ↓reduceIte]
          rw [storePrev_some nextNode (by exact nextFound)]
          simp only [ok_bind]
          rw [delete_some node (by simp [notNext, found])]
          refine ⟨{ wheel with
            slots := fun other => if other = index then some next.timer else wheel.slots other
            timers := (wheel.timers.setPrev next.timer none).erase entry.timer }, rfl,
            bucket.without_first, ⟨?_, ?_, rfl⟩, by simp, rfl⟩
          · intro other different
            simp [different]
          · intro address outside
            have notEntry : address ≠ entry.timer := fun same => outside (by simp [same])
            have notNext : address ≠ next.timer := fun same => outside (by simp [same])
            simp [notEntry, notNext]
  | cons first front =>
      simp only [reduceCtorEq, ↓reduceIte]
      obtain ⟨wheel', done, bucket', confined, world⟩ :=
        unlinkInner_spec bucket (List.cons_ne_nil first front)
      rw [done]
      simp only [ok_bind]
      rw [delete_some node (by rw [confined.cells _ fresh, found])]
      have wider := confined.mono fun address member =>
        (by simp at member ⊢; tauto : address ∈ addresses (first :: front ++ entry :: right))
      exact ⟨_, rfl, bucket'.erase fresh, wider.erase (by simp), by simp, world⟩

/-! ## Visiting a slot -/

end TimeWheelTimer

/-- A timer that stays in its slot when the cursor visits it. -/
def Waiting.advance (entry : Waiting γ υ) : Option (Waiting γ υ) :=
  if entry.rotation > 0 then some { entry with rotation := entry.rotation - 1 } else none

/-- The callbacks of the timers that do not stay, in the order of the slot. -/
def Waiting.fire (effect : γ → υ → ω → ω) : List (Waiting γ υ) → ω → ω
  | [], world => world
  | entry :: waiting, world =>
      match entry.advance, entry.callback with
      | none, some (cbFunc, userData) => Waiting.fire effect waiting (effect cbFunc userData world)
      | _, _ => Waiting.fire effect waiting world

namespace TimeWheelTimer

variable {wheel : TimeWheelTimer γ υ ω} {passed rest : List (Waiting γ υ)} {entry : Waiting γ υ}

theorem tickLoop_wait (invoke : Invoke γ υ ω) (fuel : Nat)
    (bucket : Bucket wheel wheel.curSlot (passed ++ entry :: rest)) (left : entry.rotation > 0) :
    ∃ wheel', tickLoop invoke (fuel + 1) wheel (some entry.timer) =
        tickLoop invoke fuel wheel' (addresses rest).head? ∧
      Bucket wheel' wheel.curSlot
        (passed ++ { entry with rotation := entry.rotation - 1 } :: rest) ∧
      Confined wheel.curSlot (addresses (passed ++ entry :: rest)) wheel wheel' ∧
      wheel'.world = wheel.world := by
  obtain ⟨node, found, timeSlot, rotation, callback, -, forward⟩ := bucket.node
  have fresh := bucket.fresh_of_middle
  refine ⟨{ wheel with timers := wheel.timers.modify entry.timer fun node =>
    { node with rotation := node.rotation - 1 } }, ?_, ⟨?_, ?_, ?_, ?_⟩, ⟨?_, ?_, rfl⟩, rfl⟩
  · rw [tickLoop]
    simp only [load_some node found, ok_bind, rotation, if_pos left]
    rw [Heap.store_some found]
    simp only [ok_bind]
    rw [load_some { node with rotation := node.rotation - 1 } (by simp [found])]
    simp only [ok_bind, forward]
  · rw [bucket.head]
    cases passed <;> simp
  · have linked : Segment (wheel.timers.modify entry.timer fun node =>
        { node with rotation := node.rotation - 1 }) none (addresses (passed ++ entry :: rest))
        none := bucket.linked.modify entry.timer (fun _ => rfl) (fun _ => rfl)
    simpa using linked
  · simpa using bucket.distinct
  · intro other member
    have cases : other ∈ passed ++ rest ∨
        other = { entry with rotation := entry.rotation - 1 } := by
      simp at member ⊢; tauto
    rcases cases with member | rfl
    · apply (bucket.stored other (by simp at member ⊢; tauto)).frame
      exact Heap.modify_other _ _ fun same => fresh (same ▸ mem_addresses member)
    · simp [Waiting.Stored, TwTimer.payload, found, timeSlot, rotation, callback]
  · intro other _
    rfl
  · intro address outside
    exact Heap.modify_other _ _ fun same => outside (by simp [same])

/-- One round of the loop on a timer without rotations left. Whatever its callback did in front
of it, the timer is unlinked and deleted, and the loop goes on behind it. -/
theorem tickLoop_called {invoke : Invoke γ υ ω} (fuel : Nat)
    (bucket : Bucket wheel wheel.curSlot (passed ++ entry :: rest)) (done : ¬ entry.rotation > 0)
    {cbFunc : γ} {userData : υ} (callback : entry.callback = some (cbFunc, userData))
    {called : TimeWheelTimer γ υ ω} (invoked : invoke cbFunc userData wheel = .ok called)
    (low : 0 ≤ called.curSlot) (high : called.curSlot < N) {before : List (Waiting γ υ)}
    (bucketCalled : Bucket called called.curSlot (before ++ entry :: rest)) :
    ∃ wheel', tickLoop invoke (fuel + 1) wheel (some entry.timer) =
        tickLoop invoke fuel wheel' (addresses rest).head? ∧
      Bucket wheel' called.curSlot (before ++ rest) ∧
      Confined called.curSlot (addresses (before ++ entry :: rest)) called wheel' ∧
      wheel'.timers entry.timer = none ∧ wheel'.world = called.world := by
  obtain ⟨node, found, -, rotation, callbackNode, -⟩ := bucket.node
  obtain ⟨nodeCalled, foundCalled, -, -, -, -, forward⟩ := bucketCalled.node
  have fresh := bucketCalled.fresh_of_middle
  have calledBack : callBack invoke wheel (some entry.timer) = .ok called := by
    unfold callBack
    simp only [load_some node found, ok_bind, callbackNode, callback, invoked]
  rw [tickLoop]
  simp only [load_some node found, ok_bind, rotation, if_neg done, calledBack, slot_eq low high]
  cases before with
  | nil =>
      rw [if_pos (bucketCalled.some_timer_eq_head_iff.mpr rfl)]
      simp only [load_some nodeCalled foundCalled, ok_bind, forward, storeSlot_eq low high]
      rw [delete_some nodeCalled (by exact foundCalled)]
      simp only [ok_bind]
      rw [slot_eq (by exact low) (by exact high)]
      cases rest with
      | nil =>
          refine ⟨{ called with
            slots := fun other => if other = called.curSlot then none else called.slots other
            timers := called.timers.erase entry.timer }, ?_, Bucket.without_only, ⟨?_, ?_, rfl⟩,
            by simp, rfl⟩
          · simp only [ok_bind, addresses_nil, List.head?_nil, ↓reduceIte, Option.isSome_none,
              Bool.false_eq_true, pure_eq_ok]
            rw [slot_eq (by exact low) (by exact high)]
            simp
          · intro other different
            simp [different]
          · intro address outside
            exact Heap.erase_other _ fun same => outside (by simp [same])
      | cons next back =>
          have notNext : next.timer ≠ entry.timer := fun same => fresh (by simp [same])
          obtain ⟨nextNode, nextFound, -⟩ := (bucketCalled.stored next (by simp)).found
          refine ⟨{ called with
            slots := fun other =>
              if other = called.curSlot then some next.timer else called.slots other
            timers := (called.timers.setPrev next.timer none).erase entry.timer }, ?_,
            bucketCalled.without_first, ⟨?_, ?_, rfl⟩, by simp, rfl⟩
          · simp only [ok_bind, addresses_cons, List.head?_cons, ↓reduceIte, Option.isSome_some]
            rw [storePrev_some nextNode (by simp [notNext, nextFound])]
            simp only [ok_bind]
            rw [slot_eq (by exact low) (by exact high), Heap.setPrev_erase_comm _ notNext]
            simp
          · intro other different
            simp [different]
          · intro address outside
            have notEntry : address ≠ entry.timer := fun same => outside (by simp [same])
            have notNext : address ≠ next.timer := fun same => outside (by simp [same])
            simp [notEntry, notNext]
  | cons first front =>
      rw [if_neg fun same =>
        List.cons_ne_nil first front (bucketCalled.some_timer_eq_head_iff.mp same)]
      obtain ⟨wheel', unlinked, bucket', confined, world⟩ :=
        unlinkInner_spec bucketCalled (List.cons_ne_nil first front)
      have kept : wheel'.timers entry.timer = some nodeCalled := by
        rw [confined.cells _ fresh, foundCalled]
      rw [unlinked]
      simp only [ok_bind, load_some nodeCalled kept, delete_some nodeCalled kept, forward]
      have wider := confined.mono fun address member =>
        (by simp at member ⊢; tauto : address ∈ addresses (first :: front ++ entry :: rest))
      exact ⟨_, rfl, bucket'.erase fresh, wider.erase (by simp), by simp, world⟩

theorem tickLoop_fire (effect : γ → υ → ω → ω) (fuel : Nat) (low : 0 ≤ wheel.curSlot)
    (high : wheel.curSlot < N) (bucket : Bucket wheel wheel.curSlot (passed ++ entry :: rest))
    (done : ¬ entry.rotation > 0) {cbFunc : γ} {userData : υ}
    (callback : entry.callback = some (cbFunc, userData)) :
    ∃ wheel', tickLoop (quiet effect) (fuel + 1) wheel (some entry.timer) =
        tickLoop (quiet effect) fuel wheel' (addresses rest).head? ∧
      Bucket wheel' wheel.curSlot (passed ++ rest) ∧
      Confined wheel.curSlot (addresses (passed ++ entry :: rest)) wheel wheel' ∧
      wheel'.timers entry.timer = none ∧
      wheel'.world = effect cbFunc userData wheel.world := by
  let called : TimeWheelTimer γ υ ω :=
    { wheel with world := effect cbFunc userData wheel.world }
  have invoked : quiet effect cbFunc userData wheel = .ok called := rfl
  have bucketCalled : Bucket called called.curSlot (passed ++ entry :: rest) :=
    bucket.frame rfl fun _ _ => rfl
  obtain ⟨wheel', round, bucket', confined, gone, world⟩ :=
    tickLoop_called fuel bucket done callback invoked low high bucketCalled
  exact ⟨wheel', round, bucket', ⟨confined.slots, confined.cells, confined.curSlot⟩, gone, world⟩

theorem tickLoop_spec (effect : γ → υ → ω → ω) {fuel : Nat} {index : Int}
    (cursor : wheel.curSlot = index) (low : 0 ≤ index) (high : index < N)
    (bucket : Bucket wheel index (passed ++ rest))
    (set : ∀ entry ∈ rest, entry.callback.isSome = true) (enough : rest.length ≤ fuel) :
    ∃ wheel', tickLoop (quiet effect) fuel wheel (addresses rest).head? = .ok wheel' ∧
      Bucket wheel' index (passed ++ rest.filterMap Waiting.advance) ∧
      Confined index (addresses (passed ++ rest)) wheel wheel' ∧
      (∀ address ∈ addresses rest, address ∉ addresses (rest.filterMap Waiting.advance) →
        wheel'.timers address = none) ∧
      wheel'.world = Waiting.fire effect rest wheel.world := by
  induction rest generalizing wheel passed fuel with
  | nil =>
      refine ⟨wheel, ?_, by simpa using bucket, Confined.refl wheel, by simp, rfl⟩
      cases fuel <;> rfl
  | cons entry rest ih =>
      obtain ⟨fuel, rfl⟩ : ∃ smaller, fuel = smaller + 1 := ⟨fuel - 1, by simp at enough; omega⟩
      subst cursor
      simp only [addresses_cons, List.head?_cons]
      by_cases left : entry.rotation > 0
      · obtain ⟨wheel₁, round, bucket₁, confined₁, world₁⟩ :=
          tickLoop_wait (quiet effect) fuel bucket left
        have advanced : entry.advance = some { entry with rotation := entry.rotation - 1 } :=
          if_pos left
        have shifted : passed ++ { entry with rotation := entry.rotation - 1 } :: rest =
            (passed ++ [{ entry with rotation := entry.rotation - 1 }]) ++ rest := by simp
        rw [shifted] at bucket₁
        obtain ⟨wheel', finished, bucket', confined', gone, world'⟩ :=
          ih confined₁.curSlot bucket₁ (fun other member => set other (List.mem_cons_of_mem _ member))
            (by simpa using enough)
        refine ⟨wheel', round.trans finished, ?_, ?_, ?_, ?_⟩
        · rw [List.filterMap_cons_some advanced]
          simpa using bucket'
        · apply confined₁.trans
          exact confined'.mono fun address member => by simpa using member
        · intro address member survives
          rw [List.filterMap_cons_some advanced, addresses_cons, List.mem_cons, not_or] at survives
          rcases List.mem_cons.mp member with same | member
          · exact absurd same survives.1
          · exact gone address member survives.2
        · rw [world', world₁]
          simp [Waiting.fire, advanced]
      · obtain ⟨⟨cbFunc, userData⟩, callback⟩ :=
          Option.isSome_iff_exists.mp (set entry List.mem_cons_self)
        obtain ⟨wheel₁, round, bucket₁, confined₁, gone₁, world₁⟩ :=
          tickLoop_fire effect fuel low high bucket left callback
        have advanced : entry.advance = none := if_neg left
        obtain ⟨wheel', finished, bucket', confined', gone, world'⟩ :=
          ih confined₁.curSlot bucket₁ (fun other member => set other (List.mem_cons_of_mem _ member))
            (by simpa using enough)
        refine ⟨wheel', round.trans finished, ?_, ?_, ?_, ?_⟩
        · rw [List.filterMap_cons_none advanced]
          exact bucket'
        · apply confined₁.trans
          exact confined'.mono fun address member => by simp at member ⊢; tauto
        · intro address member survives
          rw [List.filterMap_cons_none advanced] at survives
          rcases List.mem_cons.mp member with rfl | member
          · rw [confined'.cells _ bucket.fresh_of_middle, gone₁]
          · exact gone address member survives
        · rw [world', world₁]
          simp [Waiting.fire, advanced, callback]

/-- A tick turns the timers of the slot under the cursor by one rotation, calls
back those that have none left, and moves the cursor on. -/
theorem tick_spec (effect : γ → υ → ω → ω) {fuel : Nat} {index : Int}
    (cursor : wheel.curSlot = index) (low : 0 ≤ index) (high : index < N)
    {waiting : List (Waiting γ υ)} (bucket : Bucket wheel index waiting)
    (set : ∀ entry ∈ waiting, entry.callback.isSome = true) (enough : waiting.length ≤ fuel) :
    ∃ wheel', tick (quiet effect) fuel wheel =
        .ok { wheel' with curSlot := (index + 1).tmod N } ∧
      Bucket wheel' index (waiting.filterMap Waiting.advance) ∧
      Confined index (addresses waiting) wheel wheel' ∧
      (∀ address ∈ addresses waiting, address ∉ addresses (waiting.filterMap Waiting.advance) →
        wheel'.timers address = none) ∧
      wheel'.world = Waiting.fire effect waiting wheel.world := by
  have started : Bucket wheel index ([] ++ waiting) := bucket
  obtain ⟨wheel', finished, bucket', confined, gone, world⟩ :=
    tickLoop_spec effect cursor low high started set enough
  refine ⟨wheel', ?_, bucket', confined, gone, world⟩
  unfold tick
  rw [slot_eq (cursor ▸ low) (cursor ▸ high), cursor, bucket.head]
  simp only [ok_bind]
  rw [finished]
  simp only [ok_bind, confined.curSlot, cursor, pure_eq_ok]

end TimeWheelTimer

end HPLinuxServer.Timer
