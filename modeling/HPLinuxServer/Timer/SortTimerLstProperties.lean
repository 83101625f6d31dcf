import Mathlib.Data.Int.Order.Basic
import Mathlib.Data.List.Nodup
import HPLinuxServer.Scheduling.Agenda
import HPLinuxServer.Timer.SortTimerLst

/-!
# What a sorted timer list represents

The list is a linked copy of an agenda of timers. Each member function acts on
the agenda as the corresponding queue operation does, and none of them follows a
link that leads out of the list.
-/

set_option autoImplicit false

namespace HPLinuxServer.Timer

open Memory Scheduling

/-- A live timer: its address and the data its owner gave it. -/
structure Entry (γ υ : Type) where
  timer : Addr
  expire : Int
  cbFunc : γ
  userData : υ
  deriving DecidableEq, Repr

abbrev Agenda (γ υ : Type) := List (Entry γ υ)

variable {γ υ ω : Type}

namespace Agenda

def addresses (agenda : Agenda γ υ) : List Addr := agenda.map Entry.timer

@[simp] theorem addresses_nil : addresses ([] : Agenda γ υ) = [] := rfl

@[simp] theorem addresses_cons (entry : Entry γ υ) (agenda : Agenda γ υ) :
    addresses (entry :: agenda) = entry.timer :: addresses agenda := rfl

@[simp] theorem addresses_append (left right : Agenda γ υ) :
    addresses (left ++ right) = addresses left ++ addresses right := List.map_append

theorem mem_addresses {agenda : Agenda γ υ} {entry : Entry γ υ} (member : entry ∈ agenda) :
    entry.timer ∈ addresses agenda := List.mem_map_of_mem member

theorem eq_of_timer_eq {agenda : Agenda γ υ} (distinct : (addresses agenda).Nodup)
    {left right : Entry γ υ} (leftMember : left ∈ agenda) (rightMember : right ∈ agenda)
    (same : left.timer = right.timer) : left = right :=
  List.inj_on_of_nodup_map distinct leftMember rightMember same

end Agenda

open Agenda

def UtilTimer.payload (timer : UtilTimer γ υ) : Int × γ × υ :=
  (timer.expire, timer.cbFunc, timer.userData)

def Entry.payload (entry : Entry γ υ) : Int × γ × υ :=
  (entry.expire, entry.cbFunc, entry.userData)

/-- The timer object of `entry` carries the entry's data. -/
def Stored (timers : Heap (UtilTimer γ υ)) (entry : Entry γ υ) : Prop :=
  (timers entry.timer).map UtilTimer.payload = some entry.payload

theorem Stored.found {timers : Heap (UtilTimer γ υ)} {entry : Entry γ υ}
    (stored : Stored timers entry) :
    ∃ node, timers entry.timer = some node ∧ node.expire = entry.expire ∧
      node.cbFunc = entry.cbFunc ∧ node.userData = entry.userData := by
  obtain ⟨node, found, same⟩ := Option.map_eq_some_iff.mp stored
  simp only [UtilTimer.payload, Entry.payload, Prod.mk.injEq] at same
  exact ⟨node, found, same⟩

@[simp] theorem stored_setNext {timers : Heap (UtilTimer γ υ)} {entry : Entry γ υ}
    {address : Addr} {link : Ptr} :
    Stored (timers.setNext address link) entry ↔ Stored timers entry := by
  unfold Stored Heap.setNext
  rw [Heap.modify_map _ _ (fun node => LinkedNode.withNext node link) UtilTimer.payload fun _ => rfl]

@[simp] theorem stored_setPrev {timers : Heap (UtilTimer γ υ)} {entry : Entry γ υ}
    {address : Addr} {link : Ptr} :
    Stored (timers.setPrev address link) entry ↔ Stored timers entry := by
  unfold Stored Heap.setPrev
  rw [Heap.modify_map _ _ (fun node => LinkedNode.withPrev node link) UtilTimer.payload fun _ => rfl]

/-- The list links the timers of `agenda` in its order: `next` from `head` visits
them all and ends at `tail`, `prev` is the way back. Nothing is said of the tail
of an empty list. -/
structure Chain (list : SortTimerLst γ υ ω) (agenda : Agenda γ υ) : Prop where
  head : list.head = (addresses agenda).head?
  tail : agenda ≠ [] → list.tail = (addresses agenda).getLast?
  linked : Segment list.timers none (addresses agenda) none
  distinct : (addresses agenda).Nodup
  stored : ∀ entry ∈ agenda, Stored list.timers entry

/-- The same timers are allocated, and the rest of the program is unchanged. -/
structure Keeps (list list' : SortTimerLst γ υ ω) : Prop where
  cells : ∀ address, (list'.timers address).isSome = (list.timers address).isSome
  world : list'.world = list.world

theorem Keeps.refl (list : SortTimerLst γ υ ω) : Keeps list list := ⟨fun _ => rfl, rfl⟩

theorem Keeps.trans {first second third : SortTimerLst γ υ ω} (left : Keeps first second)
    (right : Keeps second third) : Keeps first third :=
  ⟨fun address => (right.cells address).trans (left.cells address), right.world.trans left.world⟩

/-- `address` has been deleted, and nothing else. -/
structure Removes (address : Addr) (list list' : SortTimerLst γ υ ω) : Prop where
  gone : list'.timers address = none
  others : ∀ other, other ≠ address → (list'.timers other).isSome = (list.timers other).isSome
  world : list'.world = list.world

namespace SortTimerLst

theorem load_some {list : SortTimerLst γ υ ω} {address : Addr} (node : UtilTimer γ υ)
    (found : list.timers address = some node) : list.load (some address) = .ok node :=
  Heap.load_some found

theorem storeNext_some {list : SortTimerLst γ υ ω} {address : Addr} (node : UtilTimer γ υ)
    (found : list.timers address = some node) (link : Ptr) :
    list.storeNext (some address) link =
      .ok { list with timers := list.timers.setNext address link } := by
  unfold storeNext
  rw [Heap.store_some found]
  rfl

theorem storePrev_some {list : SortTimerLst γ υ ω} {address : Addr} (node : UtilTimer γ υ)
    (found : list.timers address = some node) (link : Ptr) :
    list.storePrev (some address) link =
      .ok { list with timers := list.timers.setPrev address link } := by
  unfold storePrev
  rw [Heap.store_some found]
  rfl

theorem storeExpire_some {list : SortTimerLst γ υ ω} {address : Addr} (node : UtilTimer γ υ)
    (found : list.timers address = some node) (expire : Int) :
    list.storeExpire (some address) expire = .ok { list with
      timers := list.timers.modify address fun timer => { timer with expire } } := by
  unfold storeExpire
  rw [Heap.store_some found]
  rfl

theorem delete_some {list : SortTimerLst γ υ ω} {address : Addr} (node : UtilTimer γ υ)
    (found : list.timers address = some node) :
    list.delete (some address) = .ok { list with timers := list.timers.erase address } := by
  unfold delete
  rw [Heap.delete_some found]
  rfl

end SortTimerLst

/-! ## Linking a timer in -/

namespace Chain

variable {list : SortTimerLst γ υ ω}

theorem found {agenda : Agenda γ υ} (chain : Chain list agenda) (entry : Entry γ υ)
    (member : entry ∈ agenda) : ∃ node, list.timers entry.timer = some node ∧
      node.expire = entry.expire ∧ node.cbFunc = entry.cbFunc ∧ node.userData = entry.userData :=
  (chain.stored entry member).found

/-- The object of the timer between `left` and `right`, with its links. -/
theorem node {left right : Agenda γ υ} {entry : Entry γ υ}
    (chain : Chain list (left ++ entry :: right)) :
    ∃ node, list.timers entry.timer = some node ∧ node.expire = entry.expire ∧
      node.cbFunc = entry.cbFunc ∧ node.userData = entry.userData ∧
      node.prev = (addresses left).getLast? ∧ node.next = (addresses right).head? := by
  obtain ⟨node, found, expire, cbFunc, userData⟩ := chain.found entry (by simp)
  have linked := chain.linked
  rw [addresses_append, addresses_cons, segment_middle_iff] at linked
  obtain ⟨-, ⟨node', found', back, forward⟩, -⟩ := linked
  obtain rfl : node' = node := Option.some.inj (found'.symm.trans found)
  exact ⟨node', found, expire, cbFunc, userData, by simpa using back, by simpa using forward⟩

theorem first_node {back : Agenda γ υ} {first : Entry γ υ} (chain : Chain list (first :: back)) :
    ∃ node, list.timers first.timer = some node ∧ node.expire = first.expire ∧
      node.cbFunc = first.cbFunc ∧ node.userData = first.userData ∧
      node.prev = none ∧ node.next = (addresses back).head? := by
  have split : Chain list ([] ++ first :: back) := chain
  simpa using split.node

theorem ne_of_fresh {agenda : Agenda γ υ} {entry other : Entry γ υ}
    (fresh : entry.timer ∉ addresses agenda) (member : other ∈ agenda) :
    entry.timer ≠ other.timer :=
  fun same => fresh (same ▸ mem_addresses member)

/-- The stores that link `entry` in before `next`. -/
theorem link_before {front back : Agenda γ υ} {last next entry : Entry γ υ}
    (chain : Chain list ((front ++ [last]) ++ next :: back)) (stored : Stored list.timers entry)
    (fresh : entry.timer ∉ addresses ((front ++ [last]) ++ next :: back)) :
    ∃ list',
      (do
        let list ← list.storeNext (some entry.timer) (some next.timer)
        let list ← list.storePrev (some entry.timer) (← list.load (some next.timer)).prev
        let list ← list.storeNext (← list.load (some next.timer)).prev (some entry.timer)
        list.storePrev (some next.timer) (some entry.timer)) = .ok list' ∧
      Chain list' ((front ++ [last]) ++ entry :: next :: back) ∧ Keeps list list' := by
  obtain ⟨node, found, -⟩ := stored.found
  obtain ⟨nextNode, nextFound, -, -, -, nextBack, -⟩ := chain.node
  obtain ⟨lastNode, lastFound, -⟩ := chain.found last (by simp)
  have notNext : entry.timer ≠ next.timer := ne_of_fresh fresh (by simp)
  have notLast : entry.timer ≠ last.timer := ne_of_fresh fresh (by simp)
  have distinct := chain.distinct
  simp only [addresses_append, addresses_cons, addresses_nil] at distinct fresh
  have nextNotLast : next.timer ≠ last.timer := by
    intro same
    exact (List.nodup_append.mp distinct).2.2 last.timer (by simp) next.timer (by simp) same.symm
  have lastBack : nextNode.prev = some last.timer := by simpa using nextBack
  refine ⟨{ list with
      timers := (((list.timers.setNext entry.timer (some next.timer)).setPrev entry.timer
        (some last.timer)).setNext last.timer (some entry.timer)).setPrev next.timer
        (some entry.timer) }, ?_, ⟨?_, ?_, ?_, ?_, ?_⟩, ⟨?_, rfl⟩⟩
  · rw [SortTimerLst.storeNext_some node found]
    simp only [ok_bind]
    rw [SortTimerLst.load_some nextNode (by simp [notNext.symm, nextFound])]
    simp only [ok_bind]
    rw [SortTimerLst.storePrev_some { node with next := some next.timer }
      (by simp [found]), lastBack]
    simp only [ok_bind]
    rw [SortTimerLst.load_some nextNode (by simp [notNext.symm, nextFound])]
    simp only [ok_bind]
    rw [lastBack, SortTimerLst.storeNext_some lastNode
      (by simp [notLast.symm, lastFound])]
    simp only [ok_bind]
    rw [SortTimerLst.storePrev_some nextNode
      (by simp [notNext.symm, nextNotLast, nextFound])]
  · rw [chain.head]; cases front <;> simp
  · intro _
    have last := chain.tail (by simp)
    simp only [last]
    simp [List.getLast?_append]
  · simpa using Segment.insert (by simpa using chain.linked) (by simpa using distinct)
      (by simpa using fresh) found
  · simp only [addresses_append, addresses_cons, addresses_nil]
    exact List.nodup_middle.mpr (List.nodup_cons.mpr ⟨fresh, distinct⟩)
  · intro other member
    simp only [stored_setNext, stored_setPrev]
    rcases List.mem_append.mp member with member | member
    · exact chain.stored other (List.mem_append_left _ member)
    · rcases List.mem_cons.mp member with rfl | member
      · exact stored
      · exact chain.stored other (List.mem_append_right _ member)
  · intro address
    simp [Heap.setNext, Heap.setPrev, Heap.modify_isSome]

/-- The stores that link `entry` in behind the tail. -/
theorem link_last {front : Agenda γ υ} {last entry : Entry γ υ}
    (chain : Chain list (front ++ [last])) (stored : Stored list.timers entry)
    (fresh : entry.timer ∉ addresses (front ++ [last])) :
    ∃ list',
      (do
        let list ← list.storeNext list.tail (some entry.timer)
        let list ← list.storeNext (some entry.timer) none
        let list ← list.storePrev (some entry.timer) list.tail
        return { list with tail := some entry.timer }) = .ok list' ∧
      Chain list' ((front ++ [last]) ++ [entry]) ∧ Keeps list list' := by
  obtain ⟨node, found, -⟩ := stored.found
  obtain ⟨lastNode, lastFound, -⟩ := chain.found last (by simp)
  have tail : list.tail = some last.timer := by simpa using chain.tail (by simp)
  have notLast : entry.timer ≠ last.timer := ne_of_fresh fresh (by simp)
  have distinct := chain.distinct
  simp only [addresses_append, addresses_cons, addresses_nil] at distinct fresh
  refine ⟨{ list with
      tail := some entry.timer
      timers := ((list.timers.setNext last.timer (some entry.timer)).setNext entry.timer
        none).setPrev entry.timer (some last.timer) }, ?_, ⟨?_, ?_, ?_, ?_, ?_⟩, ⟨?_, rfl⟩⟩
  · rw [tail, SortTimerLst.storeNext_some lastNode lastFound]
    simp only [ok_bind]
    rw [SortTimerLst.storeNext_some node (by simp [notLast, found])]
    simp only [ok_bind]
    rw [tail, SortTimerLst.storePrev_some { node with next := none }
      (by simp [notLast, found])]
    rfl
  · rw [chain.head]; cases front <;> simp
  · intro _; simp
  · simpa using Segment.snoc (by simpa using chain.linked) distinct fresh found none
  · simp only [addresses_append, addresses_cons, addresses_nil]
    exact List.nodup_middle.mpr (List.nodup_cons.mpr ⟨by simpa using fresh, by simpa using distinct⟩)
  · intro other member
    simp only [stored_setNext, stored_setPrev]
    rcases List.mem_append.mp member with member | member
    · exact chain.stored other member
    · obtain rfl : other = entry := by simpa using member
      exact stored
  · intro address
    simp [Heap.setNext, Heap.setPrev, Heap.modify_isSome]

/-- The stores that link `entry` in before the head. -/
theorem link_first {back : Agenda γ υ} {first entry : Entry γ υ} {node : UtilTimer γ υ}
    (chain : Chain list (first :: back)) (stored : Stored list.timers entry)
    (found : list.timers entry.timer = some node) (unlinked : node.prev = none)
    (fresh : entry.timer ∉ addresses (first :: back)) :
    ∃ list',
      (do
        let list ← list.storePrev list.head (some entry.timer)
        let list ← list.storeNext (some entry.timer) list.head
        return { list with head := some entry.timer }) = .ok list' ∧
      Chain list' (entry :: first :: back) ∧ Keeps list list' := by
  obtain ⟨firstNode, firstFound, -⟩ := chain.found first (by simp)
  have head : list.head = some first.timer := by simpa using chain.head
  have notFirst : entry.timer ≠ first.timer := ne_of_fresh fresh (by simp)
  refine ⟨{ list with
      head := some entry.timer
      timers := (list.timers.setPrev first.timer (some entry.timer)).setNext entry.timer
        (some first.timer) }, ?_, ⟨rfl, ?_, ?_, ?_, ?_⟩, ⟨?_, rfl⟩⟩
  · rw [head, SortTimerLst.storePrev_some firstNode firstFound]
    simp only [ok_bind]
    rw [head, SortTimerLst.storeNext_some node (by simp [notFirst, found])]
    rfl
  · intro _
    rw [chain.tail (by simp)]
    simp [List.getLast?_cons_cons]
  · exact Segment.push chain.linked chain.distinct fresh found unlinked
  · exact List.nodup_cons.mpr ⟨fresh, chain.distinct⟩
  · intro other member
    simp only [stored_setNext, stored_setPrev]
    rcases List.mem_cons.mp member with rfl | member
    · exact stored
    · exact chain.stored other member
  · intro address
    simp [Heap.setNext, Heap.setPrev, Heap.modify_isSome]

theorem map_some {agenda : Agenda γ υ} (chain : Chain list agenda) :
    agenda.map some = (addresses agenda).map fun address =>
      (list.timers address).map fun node =>
        (⟨address, node.expire, node.cbFunc, node.userData⟩ : Entry γ υ) := by
  unfold addresses
  rw [List.map_map]
  refine List.map_congr_left fun entry member => ?_
  obtain ⟨node, found, expire, cbFunc, userData⟩ := chain.found entry member
  rw [Function.comp_apply, found, Option.map_some, expire, cbFunc, userData]

/-- The links and the data of the timers determine the agenda. -/
theorem unique {first second : Agenda γ υ} (left : Chain list first) (right : Chain list second) :
    first = second := by
  have same : addresses first = addresses second :=
    left.linked.unique right.linked (left.head.symm.trans right.head)
  have entries : first.map some = second.map some := by
    rw [left.map_some, right.map_some, same]
  exact (List.map_inj_right fun _ _ => Option.some.inj).mp entries

/-! ### Taking a timer out -/

/-- Changes of objects that are not in the list do not matter to it. -/
theorem frame {agenda : Agenda γ υ} (chain : Chain list agenda)
    {timers : Heap (UtilTimer γ υ)}
    (same : ∀ address ∈ addresses agenda, timers address = list.timers address) :
    Chain { list with timers } agenda where
  head := chain.head
  tail := chain.tail
  linked := chain.linked.frame same
  distinct := chain.distinct
  stored entry member := by
    change (timers entry.timer).map UtilTimer.payload = some entry.payload
    rw [same _ (mem_addresses member)]
    exact chain.stored entry member

theorem erase {agenda : Agenda γ υ} (chain : Chain list agenda) {address : Addr}
    (outside : address ∉ addresses agenda) :
    Chain { list with timers := list.timers.erase address } agenda :=
  chain.frame fun _ member => Heap.erase_other _ fun same => outside (same ▸ member)

theorem withWorld {agenda : Agenda γ υ} (chain : Chain list agenda) (world : ω) :
    Chain { list with world } agenda :=
  ⟨chain.head, chain.tail, chain.linked, chain.distinct, chain.stored⟩

theorem without_first {back : Agenda γ υ} {entry next : Entry γ υ}
    (chain : Chain list (entry :: next :: back)) :
    Chain { list with
      head := some next.timer, timers := list.timers.setPrev next.timer none } (next :: back) where
  head := rfl
  tail _ := by
    have tail := chain.tail (by simp)
    simpa [List.getLast?_cons_cons] using tail
  linked := chain.linked.2.setPrev_first
    (List.nodup_cons.mp (List.nodup_cons.mp chain.distinct).2).1 none
  distinct := (List.nodup_cons.mp chain.distinct).2
  stored other member := by
    simpa using chain.stored other (List.mem_cons_of_mem _ member)

theorem without_last {front : Agenda γ υ} {last entry : Entry γ υ}
    (chain : Chain list ((front ++ [last]) ++ [entry])) :
    Chain { list with
      tail := some last.timer, timers := list.timers.setNext last.timer none }
      (front ++ [last]) where
  head := by rw [chain.head]; cases front <;> simp
  tail _ := by simp
  linked := by
    have linked := chain.linked
    have distinct := chain.distinct
    simp only [addresses_append, addresses_cons, addresses_nil] at linked distinct ⊢
    have inner := (List.nodup_append.mp distinct).1
    refine (segment_append_iff.mp linked).1.setNext_last (fun member => ?_) none
    simpa using (List.nodup_append.mp inner).2.2 last.timer member last.timer (by simp)
  distinct := by
    have distinct := chain.distinct
    rw [addresses_append] at distinct
    exact (List.nodup_append.mp distinct).1
  stored other member := by
    simpa using chain.stored other (List.mem_append_left _ member)

theorem without_middle {front back : Agenda γ υ} {last entry next : Entry γ υ}
    (chain : Chain list ((front ++ [last]) ++ entry :: next :: back)) :
    Chain { list with
      timers := (list.timers.setPrev next.timer (some last.timer)).setNext last.timer
        (some next.timer) } ((front ++ [last]) ++ next :: back) where
  head := by rw [chain.head]; cases front <;> simp
  tail _ := by
    have tail := chain.tail (by simp)
    simp only [tail]
    simp [List.getLast?_append, List.getLast?_cons]
  linked := by
    have linked := chain.linked
    have distinct := chain.distinct
    simp only [addresses_append, addresses_cons, addresses_nil] at linked distinct ⊢
    exact linked.unlink distinct
  distinct := by
    have distinct := chain.distinct
    simp only [addresses_append, addresses_cons] at distinct ⊢
    exact (List.nodup_cons.mp (List.nodup_middle.mp distinct)).2
  stored other member := by
    simp only [stored_setNext, stored_setPrev]
    rcases List.mem_append.mp member with member | member
    · exact chain.stored other (List.mem_append_left _ member)
    · exact chain.stored other (List.mem_append_right _ (List.mem_cons_of_mem _ member))

theorem fresh_of_middle {left right : Agenda γ υ} {entry : Entry γ υ}
    (chain : Chain list (left ++ entry :: right)) : entry.timer ∉ addresses (left ++ right) := by
  have distinct := chain.distinct
  simp only [addresses_append, addresses_cons] at distinct ⊢
  exact (List.nodup_cons.mp (List.nodup_middle.mp distinct)).1

end Chain

/-! ## Inserting -/

namespace SortTimerLst

/-- The scan links `entry` in where the agenda puts it, once everything before
`tmp` is due no later than `entry`. -/
theorem addTimerLoop_spec (fuel : Nat) {list : SortTimerLst γ υ ω} {entry : Entry γ υ}
    {left right : Agenda γ υ} (chain : Chain list (left ++ right)) (started : left ≠ [])
    (stored : Stored list.timers entry) (fresh : entry.timer ∉ addresses (left ++ right))
    (ordered : Ordered Entry.expire (left ++ right))
    (passed : ∀ other ∈ left, other.expire ≤ entry.expire) (enough : right.length ≤ fuel) :
    ∃ list', addTimerLoop fuel list (some entry.timer) (addresses right).head? = .ok list' ∧
      Chain list' (enqueue Entry.expire entry (left ++ right)) ∧ Keeps list list' := by
  obtain ⟨front, last, rfl⟩ : ∃ front last, left = front ++ [last] :=
    ⟨left.dropLast, left.getLast started, (List.dropLast_append_getLast started).symm⟩
  induction right generalizing front last fuel with
  | nil =>
      simp only [List.append_nil] at chain fresh
      obtain ⟨list', done, chain', keeps⟩ := chain.link_last stored fresh
      refine ⟨list', ?_, ?_, keeps⟩
      · cases fuel <;> exact done
      · rw [enqueue_eq_of_split passed (by simp)]
        exact chain'
  | cons next right ih =>
      obtain ⟨fuel, rfl⟩ : ∃ smaller, fuel = smaller + 1 := ⟨fuel - 1, by simp at enough; omega⟩
      obtain ⟨node, found, expire, -⟩ := stored.found
      obtain ⟨nextNode, nextFound, nextExpire, -, -, -, nextForward⟩ := chain.node
      simp only [addresses_cons, List.head?_cons]
      unfold addTimerLoop
      rw [load_some node found, load_some nextNode nextFound]
      simp only [ok_bind, expire, nextExpire]
      by_cases before : entry.expire < next.expire
      · rw [if_pos before]
        obtain ⟨list', done, chain', keeps⟩ := chain.link_before stored fresh
        refine ⟨list', done, ?_, keeps⟩
        rw [enqueue_eq_of_split passed]
        · exact chain'
        · intro other member
          rcases List.mem_cons.mp member with rfl | member
          · exact before
          · have behind := (List.pairwise_append.mp ordered).2.1
            exact lt_of_lt_of_le before ((List.pairwise_cons.mp behind).1 other member)
      · rw [if_neg before, nextForward]
        have shifted : (front ++ [last]) ++ next :: right = ((front ++ [last]) ++ [next]) ++ right := by
          simp
        rw [shifted] at chain fresh ordered ⊢
        refine ih fuel (by simpa using enough) _ _ chain (by simp) fresh ordered ?_
        intro other member
        rcases List.mem_append.mp member with member | member
        · exact passed other member
        · obtain rfl : other = next := by simpa using member
          exact Int.not_lt.mp before

/-- A timer that has just been made by `new` and is linked nowhere is put in
its place in the agenda. -/
theorem addTimer_spec {fuel : Nat} {list : SortTimerLst γ υ ω} {agenda : Agenda γ υ}
    {entry : Entry γ υ} {node : UtilTimer γ υ} (chain : Chain list agenda)
    (ordered : Ordered Entry.expire agenda) (stored : Stored list.timers entry)
    (found : list.timers entry.timer = some node) (noPrev : node.prev = none)
    (noNext : node.next = none) (fresh : entry.timer ∉ addresses agenda)
    (enough : agenda.length ≤ fuel) :
    ∃ list', addTimer fuel list (some entry.timer) = .ok list' ∧
      Chain list' (enqueue Entry.expire entry agenda) ∧ Keeps list list' := by
  cases agenda with
  | nil =>
      have head : list.head = none := by simpa using chain.head
      refine ⟨{ list with head := some entry.timer, tail := some entry.timer }, ?_, ?_, ?_⟩
      · simp [addTimer, head]
      · refine ⟨rfl, fun _ => rfl, ⟨⟨node, found, noPrev, noNext⟩, trivial⟩, by simp [enqueue], ?_⟩
        intro other member
        obtain rfl : other = entry := by simpa [enqueue] using member
        exact stored
      · exact ⟨fun _ => rfl, rfl⟩
  | cons first back =>
      have head : list.head = some first.timer := by simpa using chain.head
      obtain ⟨firstNode, firstFound, firstExpire, -, -, -, firstForward⟩ :=
        chain.first_node
      obtain ⟨node', found', expire, -⟩ := stored.found
      unfold addTimer
      simp only [head]
      rw [load_some node' found', load_some firstNode firstFound]
      simp only [ok_bind, expire, firstExpire]
      by_cases before : entry.expire < first.expire
      · rw [if_pos before]
        obtain ⟨list', done, chain', keeps⟩ := chain.link_first stored found noPrev fresh
        rw [head] at done
        refine ⟨list', done, ?_, keeps⟩
        rw [← List.nil_append (first :: back), enqueue_eq_of_split (by simp)]
        · exact chain'
        · intro other member
          rcases List.mem_cons.mp member with rfl | member
          · exact before
          · exact lt_of_lt_of_le before ((List.pairwise_cons.mp ordered).1 other member)
      · rw [if_neg before]
        unfold addTimerBehind
        rw [load_some firstNode firstFound]
        simp only [ok_bind, firstForward]
        have scanning : Chain list ([first] ++ back) := chain
        exact addTimerLoop_spec fuel scanning (by simp) stored fresh ordered
          (by simpa using Int.not_lt.mp before) (by simp at enough; omega)

/-! ## Moving a timer -/

theorem some_timer_eq_head_iff {list : SortTimerLst γ υ ω} {left right : Agenda γ υ}
    {entry : Entry γ υ} (chain : Chain list (left ++ entry :: right)) :
    some entry.timer = list.head ↔ left = [] := by
  rw [chain.head]
  cases left with
  | nil => simp
  | cons first left =>
      have outside := (List.nodup_cons.mp chain.distinct).1
      simp only [List.cons_append, addresses_cons, List.head?_cons, Option.some.injEq,
        reduceCtorEq, iff_false]
      rintro same
      exact outside (by simp [← same])

theorem some_timer_eq_tail_iff {list : SortTimerLst γ υ ω} {left right : Agenda γ υ}
    {entry : Entry γ υ} (chain : Chain list (left ++ entry :: right)) :
    some entry.timer = list.tail ↔ right = [] := by
  rw [chain.tail (by simp)]
  rcases List.eq_nil_or_concat right with rfl | ⟨front, last, rfl⟩
  · simp
  · have distinct := chain.distinct
    simp only [addresses_append, addresses_cons, List.concat_eq_append] at distinct
    have outside := (List.nodup_cons.mp (List.nodup_append.mp distinct).2.1).1
    have tail : (addresses (left ++ entry :: (front.concat last))).getLast? = some last.timer := by
      simp [List.getLast?_append, List.getLast?_cons]
    rw [tail]
    simp only [Option.some.injEq, List.concat_eq_append, List.append_eq_nil_iff, reduceCtorEq,
      and_false, iff_false]
    rintro same
    exact outside (by simp [same])

section Adjust

variable {fuel : Nat} {list : SortTimerLst γ υ ω} {left right : Agenda γ υ} {entry next : Entry γ υ}

/-- The head is unlinked and put in again, from its successor on. -/
theorem adjustTimer_head (chain : Chain list (entry :: next :: right))
    (ordered : Ordered Entry.expire (next :: right)) (later : ¬ entry.expire < next.expire)
    (enough : right.length < fuel) :
    ∃ list', adjustTimer fuel list (some entry.timer) = .ok list' ∧
      Chain list' (enqueue Entry.expire entry (next :: right)) ∧ Keeps list list' := by
  have first : Chain list ([] ++ entry :: next :: right) := chain
  have second : Chain list ([entry] ++ next :: right) := chain
  obtain ⟨node, found, expire, -, -, -, forward⟩ := first.node
  obtain ⟨nextNode, nextFound, nextExpire, -, -, -, nextForward⟩ := second.node
  have hasNext : node.next = some next.timer := by simpa using forward
  have isHead : some entry.timer = list.head := (some_timer_eq_head_iff first).mpr rfl
  have notNext : next.timer ≠ entry.timer := fun same =>
    first.fresh_of_middle (by simp [same])
  have popped := first.without_first
  have ready : Chain { list with
      head := some next.timer
      timers := (list.timers.setPrev next.timer none).setNext entry.timer none }
      (next :: right) :=
    popped.frame fun address member => Heap.setNext_other _ _ fun same =>
      first.fresh_of_middle (by simpa [← same] using member)
  unfold adjustTimer
  simp only [load_some node found, ok_bind, hasNext, load_some nextNode nextFound, expire,
    nextExpire, if_neg later, if_pos isHead]
  rw [← isHead, load_some node found]
  simp only [ok_bind, hasNext]
  rw [storePrev_some nextNode (by exact nextFound)]
  simp only [ok_bind]
  rw [storeNext_some node (by simp [notNext.symm, found])]
  simp only [ok_bind]
  unfold addTimerBehind
  rw [load_some { nextNode with prev := none } (by simp [notNext, nextFound])]
  simp only [ok_bind, nextForward]
  have scanning : Chain _ ([next] ++ right) := ready
  obtain ⟨list', done, chain', keeps⟩ := addTimerLoop_spec fuel scanning (by simp)
    (by simpa using chain.stored entry (by simp)) (by simpa using first.fresh_of_middle)
    (by simpa using ordered) (by simpa using Int.not_lt.mp later) (Nat.le_of_lt enough)
  refine ⟨list', done, chain', Keeps.trans ?_ keeps⟩
  exact ⟨fun address => by simp [Heap.setNext, Heap.setPrev, Heap.modify_isSome], rfl⟩

/-- A timer between two others is unlinked and put in again, from its successor on. -/
theorem adjustTimer_middle {front : Agenda γ υ} {last : Entry γ υ}
    (chain : Chain list (front ++ [last] ++ entry :: next :: right))
    (ordered : Ordered Entry.expire (front ++ [last] ++ next :: right))
    (passed : ∀ other ∈ front ++ [last], other.expire ≤ entry.expire)
    (later : ¬ entry.expire < next.expire) (enough : right.length < fuel) :
    ∃ list', adjustTimer fuel list (some entry.timer) = .ok list' ∧
      Chain list' (enqueue Entry.expire entry (front ++ [last] ++ next :: right)) ∧
      Keeps list list' := by
  have second : Chain list ((front ++ [last] ++ [entry]) ++ next :: right) := by simpa using chain
  obtain ⟨node, found, expire, -, -, back, forward⟩ := chain.node
  obtain ⟨nextNode, nextFound, nextExpire, -, -, -, nextForward⟩ := second.node
  obtain ⟨lastNode, lastFound, -⟩ := chain.found last (by simp)
  have hasNext : node.next = some next.timer := by simpa using forward
  have hasPrev : node.prev = some last.timer := by simpa using back
  have notHead : ¬ some entry.timer = list.head := fun isHead =>
    absurd ((some_timer_eq_head_iff chain).mp isHead) (by simp)
  have notNext : next.timer ≠ entry.timer := fun same => chain.fresh_of_middle (by simp [same])
  have notLast : last.timer ≠ entry.timer := fun same => chain.fresh_of_middle (by simp [same])
  have apart : last.timer ≠ next.timer := fun same => second.fresh_of_middle (by simp [same])
  unfold adjustTimer
  simp only [load_some node found, ok_bind, hasNext, load_some nextNode nextFound, expire,
    nextExpire, if_neg later, if_neg notHead, hasPrev]
  rw [storePrev_some nextNode nextFound]
  simp only [ok_bind]
  rw [load_some node (by simp [notNext.symm, found])]
  simp only [ok_bind, hasNext, hasPrev]
  rw [storeNext_some lastNode (by simp [apart, lastFound])]
  simp only [ok_bind]
  rw [load_some node (by simp [notNext.symm, notLast.symm, found])]
  simp only [ok_bind, hasNext]
  unfold addTimerBehind
  rw [load_some { nextNode with prev := some last.timer } (by simp [apart.symm, nextFound])]
  simp only [ok_bind, nextForward]
  have scanning := chain.without_middle
  have shifted : (front ++ [last]) ++ next :: right =
      (front ++ [last] ++ [next]) ++ right := by simp
  rw [shifted] at scanning ordered ⊢
  have behind : ∀ other ∈ front ++ [last] ++ [next], other.expire ≤ entry.expire := by
    intro other member
    rcases List.mem_append.mp member with member | member
    · exact passed other member
    · obtain rfl : other = next := by simpa using member
      exact Int.not_lt.mp later
  obtain ⟨list', done, chain', keeps⟩ := addTimerLoop_spec fuel scanning (by simp)
    (by simpa using chain.stored entry (by simp))
    (by simpa using chain.fresh_of_middle) ordered behind (Nat.le_of_lt enough)
  refine ⟨list', done, chain', Keeps.trans ?_ keeps⟩
  exact ⟨fun address => by simp [Heap.setNext, Heap.setPrev, Heap.modify_isSome], rfl⟩

/-- With nothing behind it, or only what is due later, the timer stays where it is. -/
theorem adjustTimer_stays (chain : Chain list (left ++ entry :: right))
    (before : ∀ next, right.head? = some next → entry.expire < next.expire) :
    adjustTimer fuel list (some entry.timer) = .ok list := by
  obtain ⟨node, found, expire, -, -, -, forward⟩ := chain.node
  unfold adjustTimer
  cases right with
  | nil =>
      have noNext : node.next = none := by simpa using forward
      simp only [load_some node found, ok_bind, noNext, pure_eq_ok]
  | cons next right =>
      have hasNext : node.next = some next.timer := by simpa using forward
      have second : Chain list ((left ++ [entry]) ++ next :: right) := by simpa using chain
      obtain ⟨nextNode, nextFound, nextExpire, -⟩ := second.node
      simp only [load_some node found, ok_bind, hasNext, load_some nextNode nextFound, expire,
        nextExpire, if_pos (before next rfl), pure_eq_ok]

/-- A timer whose expiration has been raised in place moves behind every timer
that is due no later; the others keep their order. -/
theorem adjustTimer_spec (chain : Chain list (left ++ entry :: right))
    (ordered : Ordered Entry.expire (left ++ right))
    (passed : ∀ other ∈ left, other.expire ≤ entry.expire) (enough : right.length ≤ fuel) :
    ∃ list', adjustTimer fuel list (some entry.timer) = .ok list' ∧
      Chain list' (enqueue Entry.expire entry (left ++ right)) ∧ Keeps list list' := by
  by_cases before : ∀ next, right.head? = some next → entry.expire < next.expire
  · refine ⟨list, adjustTimer_stays chain before, ?_, Keeps.refl list⟩
    rw [enqueue_eq_of_split passed]
    · exact chain
    · intro other member
      cases right with
      | nil => exact absurd member List.not_mem_nil
      | cons next right =>
          have behind := (List.pairwise_append.mp ordered).2.1
          rcases List.mem_cons.mp member with rfl | member
          · exact before other rfl
          · exact lt_of_lt_of_le (before next rfl) ((List.pairwise_cons.mp behind).1 other member)
  · cases right with
    | nil => exact absurd (fun _ follows => by cases follows) before
    | cons next right =>
        have later : ¬ entry.expire < next.expire := fun early =>
          before fun other same => Option.some.inj same ▸ early
        rcases List.eq_nil_or_concat left with rfl | ⟨front, last, rfl⟩
        · exact adjustTimer_head chain ordered later enough
        · rw [List.concat_eq_append] at chain ordered passed ⊢
          exact adjustTimer_middle chain ordered passed later enough

end Adjust

/-! ## Deleting a timer -/

theorem delTimer_spec {list : SortTimerLst γ υ ω} {left right : Agenda γ υ} {entry : Entry γ υ}
    (chain : Chain list (left ++ entry :: right)) :
    ∃ list', delTimer list (some entry.timer) = .ok list' ∧ Chain list' (left ++ right) ∧
      Removes entry.timer list list' := by
  obtain ⟨node, found, -, -, -, back, forward⟩ := chain.node
  have fresh := chain.fresh_of_middle
  unfold delTimer
  simp only [some_timer_eq_head_iff chain, some_timer_eq_tail_iff chain]
  rcases List.eq_nil_or_concat left with rfl | ⟨front, last, rfl⟩
  · cases right with
    | nil =>
        -- the only timer
        simp only [and_self, ↓reduceIte]
        rw [delete_some node found]
        refine ⟨_, rfl, ⟨rfl, by simp, trivial, by simp, by simp⟩, ?_, ?_, rfl⟩
        · simp
        · intro other different; simp [different]
    | cons next right =>
        -- the head, with a successor
        have hasNext : node.next = some next.timer := by simpa using forward
        have notNext : next.timer ≠ entry.timer := fun same => fresh (by simp [same])
        obtain ⟨nextNode, nextFound, -⟩ := chain.found next (by simp)
        have head : list.head = some entry.timer := by simpa using chain.head
        simp only [reduceCtorEq, and_false, ↓reduceIte, head]
        rw [load_some node found]
        simp only [ok_bind, hasNext]
        rw [storePrev_some nextNode nextFound]
        simp only [ok_bind, head]
        rw [load_some node (by simp [notNext.symm, found])]
        simp only [ok_bind, hasNext]
        rw [delete_some node (by simp [notNext.symm, found])]
        refine ⟨_, rfl, ?_, ?_, ?_, rfl⟩
        · exact chain.without_first.erase fresh
        · simp
        · intro other different
          simp [different, Heap.setPrev, Heap.modify_isSome]
  · rw [List.concat_eq_append] at chain back fresh ⊢
    have hasPrev : node.prev = some last.timer := by simpa using back
    have notLast : last.timer ≠ entry.timer := fun same => fresh (by simp [same])
    obtain ⟨lastNode, lastFound, -⟩ := chain.found last (by simp)
    cases right with
    | nil =>
        -- the tail, with a predecessor
        have tail : list.tail = some entry.timer := by simpa using chain.tail (by simp)
        simp only [List.append_eq_nil_iff, reduceCtorEq, and_false, false_and, ↓reduceIte, tail]
        rw [load_some node found]
        simp only [ok_bind, hasPrev]
        rw [storeNext_some lastNode lastFound]
        simp only [ok_bind, tail]
        rw [load_some node (by simp [notLast.symm, found])]
        simp only [ok_bind, hasPrev]
        rw [delete_some node (by simp [notLast.symm, found])]
        refine ⟨_, rfl, ?_, ?_, ?_, rfl⟩
        · rw [List.append_nil]
          exact chain.without_last.erase (by simpa using fresh)
        · simp
        · intro other different
          simp [different, Heap.setNext, Heap.modify_isSome]
    | cons next right =>
        -- between two others
        have hasNext : node.next = some next.timer := by simpa using forward
        have notNext : next.timer ≠ entry.timer := fun same => fresh (by simp [same])
        obtain ⟨nextNode, nextFound, -⟩ := chain.found next (by simp)
        have chain' : Chain list ((front ++ [last] ++ [entry]) ++ next :: right) := by
          simpa using chain
        have apart : last.timer ≠ next.timer := fun same =>
          chain'.fresh_of_middle (by simp [same])
        simp only [List.append_eq_nil_iff, reduceCtorEq, and_false, ↓reduceIte]
        rw [load_some node found]
        simp only [ok_bind, hasPrev, hasNext]
        rw [storeNext_some lastNode lastFound]
        simp only [ok_bind]
        rw [load_some node (by simp [notLast.symm, found])]
        simp only [ok_bind, hasPrev, hasNext]
        rw [storePrev_some nextNode (by simp [apart.symm, nextFound])]
        simp only [ok_bind]
        rw [Heap.setNext_setPrev_comm _ apart,
          delete_some node (by simp [notLast.symm, notNext.symm, found])]
        refine ⟨_, rfl, ?_, ?_, ?_, rfl⟩
        · exact chain.without_middle.erase fresh
        · simp
        · intro other different
          simp [different, Heap.setNext, Heap.setPrev, Heap.modify_isSome]

/-! ## Expiring timers -/

/-- The callbacks of `entries`, in order. -/
def fire (effect : γ → υ → ω → Except Fault ω) : Agenda γ υ → ω → Except Fault ω
  | [], world => .ok world
  | entry :: entries, world => do
      fire effect entries (← effect entry.cbFunc entry.userData world)

theorem fire_quiet (effect : γ → υ → ω → ω) (entries : Agenda γ υ) (world : ω) :
    fire (fun cbFunc userData world => .ok (effect cbFunc userData world)) entries world =
      .ok (entries.foldl (fun world entry => effect entry.cbFunc entry.userData world) world) := by
  induction entries generalizing world with
  | nil => rfl
  | cons entry entries ih => exact ih _

/-- One round of the loop: the head is expired, its callback runs and leaves it at the
head, and it is unlinked and deleted. -/
theorem tickLoop_called {invoke : Invoke γ υ ω} {cur : Int} (fuel : Nat)
    {list called : SortTimerLst γ υ ω} {entry : Entry γ υ} {rest left : Agenda γ υ}
    (chain : Chain list (entry :: rest)) (expired : ¬ cur < entry.expire)
    (invoked : invoke entry.cbFunc entry.userData list = .ok called)
    (kept : Chain called (entry :: left)) :
    ∃ list', tickLoop invoke cur (fuel + 1) list (some entry.timer) =
        tickLoop invoke cur fuel list' list'.head ∧
      Chain list' left ∧ list'.world = called.world ∧ list'.timers entry.timer = none ∧
      ∀ other, other ≠ entry.timer →
        (list'.timers other).isSome = (called.timers other).isSome := by
  obtain ⟨node, found, expire, cbFunc, userData, -, -⟩ := chain.first_node
  obtain ⟨calledNode, calledFound, -, -, -, -, forward⟩ := kept.first_node
  have fresh := (List.nodup_cons.mp kept.distinct).1
  rw [tickLoop]
  simp only [load_some node found, ok_bind, expire, cbFunc, userData, if_neg expired, invoked]
  rw [load_some calledNode calledFound]
  simp only [ok_bind]
  cases left with
  | nil =>
      have noNext : calledNode.next = none := by simpa using forward
      simp only [noNext, Option.isSome_none, Bool.false_eq_true, ↓reduceIte, pure_eq_ok, ok_bind]
      rw [delete_some calledNode (by exact calledFound)]
      simp only [ok_bind]
      refine ⟨{ called with head := none, timers := called.timers.erase entry.timer }, rfl,
        ⟨rfl, by simp, trivial, by simp, by simp⟩, rfl, by simp, ?_⟩
      intro other different
      simp [different]
  | cons next back =>
      have hasNext : calledNode.next = some next.timer := by simpa using forward
      have notNext : next.timer ≠ entry.timer := fun same => fresh (by simp [same])
      obtain ⟨nextNode, nextFound, -⟩ := kept.found next (by simp)
      simp only [hasNext, Option.isSome_some, ↓reduceIte]
      rw [storePrev_some nextNode (by exact nextFound)]
      simp only [ok_bind]
      rw [delete_some calledNode (by simp [notNext.symm, calledFound])]
      simp only [ok_bind]
      refine ⟨{ called with
          head := some next.timer
          timers := (called.timers.setPrev next.timer none).erase entry.timer }, rfl,
        kept.without_first.erase fresh, rfl, by simp, ?_⟩
      intro other different
      simp [different, Heap.setPrev, Heap.modify_isSome]

theorem tickLoop_expired {effect : γ → υ → ω → Except Fault ω} {cur : Int} (fuel : Nat)
    {list : SortTimerLst γ υ ω} {entry : Entry γ υ} {rest : Agenda γ υ}
    (chain : Chain list (entry :: rest)) (expired : ¬ cur < entry.expire) {world : ω}
    (called : effect entry.cbFunc entry.userData list.world = .ok world) :
    ∃ list', tickLoop (confined effect) cur (fuel + 1) list (some entry.timer) =
        tickLoop (confined effect) cur fuel list' list'.head ∧
      Chain list' rest ∧ list'.world = world ∧ list'.timers entry.timer = none ∧
      ∀ other, other ≠ entry.timer → (list'.timers other).isSome = (list.timers other).isSome := by
  have invoked : confined effect entry.cbFunc entry.userData list = .ok { list with world } := by
    unfold confined
    rw [called]
    rfl
  exact tickLoop_called fuel chain expired invoked (chain.withWorld world)

/-- `tick` calls back exactly the timers that are due, in the order of the list,
and leaves the others. -/
theorem tick_spec {effect : γ → υ → ω → Except Fault ω} {cur : Int} {fuel : Nat}
    {list : SortTimerLst γ υ ω} {agenda : Agenda γ υ} (chain : Chain list agenda)
    (ordered : Ordered Entry.expire agenda) (enough : agenda.length ≤ fuel) {world : ω}
    (fired : fire effect (due Entry.expire cur agenda) list.world = .ok world) :
    ∃ list', tick (confined effect) cur fuel list = .ok list' ∧
      Chain list' (pending Entry.expire cur agenda) ∧ list'.world = world ∧
      (∀ entry ∈ due Entry.expire cur agenda, list'.timers entry.timer = none) ∧
      ∀ other, other ∉ addresses (due Entry.expire cur agenda) →
        (list'.timers other).isSome = (list.timers other).isSome := by
  unfold tick
  induction agenda generalizing fuel list with
  | nil =>
      have head : list.head = none := by simpa using chain.head
      refine ⟨list, ?_, chain, by simpa [fire, due] using fired, by simp [due], fun _ _ => rfl⟩
      rw [head]
      cases fuel <;> rfl
  | cons entry rest ih =>
      obtain ⟨fuel, rfl⟩ : ∃ smaller, fuel = smaller + 1 := ⟨fuel - 1, by simp at enough; omega⟩
      have head : list.head = some entry.timer := by simpa using chain.head
      rw [head]
      by_cases waiting : cur < entry.expire
      · rw [ordered.pending_eq_self waiting, ordered.due_eq_nil waiting]
        rw [ordered.due_eq_nil waiting] at fired
        obtain ⟨node, found, expire, -⟩ := chain.first_node
        refine ⟨list, ?_, chain, by simpa [fire] using fired, by simp, fun _ _ => rfl⟩
        unfold tickLoop
        rw [load_some node found]
        simp [expire, waiting]
      · have dueFirst : due Entry.expire cur (entry :: rest) = entry :: due Entry.expire cur rest := by
          simp [due, Int.not_lt.mp waiting]
        have pendingFirst : pending Entry.expire cur (entry :: rest) = pending Entry.expire cur rest := by
          simp [pending, waiting]
        rw [dueFirst] at fired
        obtain ⟨world₁, called, firedRest⟩ := bind_eq_ok_iff.mp fired
        obtain ⟨list₁, unrolled, chain₁, world₁_eq, gone, others⟩ :=
          tickLoop_expired fuel chain waiting called
        obtain ⟨list', done, chain', world', goneAll, othersAll⟩ :=
          ih chain₁ (List.pairwise_cons.mp ordered).2 (by simpa using enough)
            (world₁_eq ▸ firedRest)
        have outside : entry.timer ∉ addresses (due Entry.expire cur rest) := fun member => by
          obtain ⟨other, dueOther, same⟩ := List.mem_map.mp member
          exact (List.nodup_cons.mp chain.distinct).1
            (same ▸ mem_addresses (List.mem_of_mem_filter dueOther))
        rw [dueFirst, pendingFirst]
        refine ⟨list', unrolled.trans done, chain', world', ?_, ?_⟩
        · intro other member
          rcases List.mem_cons.mp member with rfl | member
          · have kept := othersAll _ outside
            simpa [gone] using kept
          · exact goneAll other member
        · intro other notDue
          simp only [addresses_cons, List.mem_cons, not_or] at notDue
          rw [othersAll other notDue.2, others other notDue.1]

end SortTimerLst

end HPLinuxServer.Timer
