import HPLinuxServer.Memory.Heap

/-!
# Doubly linked segments

A segment is a chain of allocated nodes whose two links are exactly their
neighbours in a list of addresses. Relinking an end of a segment, framing and
cutting are stated once here, so that an insertion or a removal anywhere is a
cut, two relinked ends and a join.
-/

set_option autoImplicit false

namespace HPLinuxServer.Memory

/-- Nodes that carry a backward and a forward link. -/
class LinkedNode (α : Type) where
  prev : α → Ptr
  next : α → Ptr
  withPrev : α → Ptr → α
  withNext : α → Ptr → α
  prev_withPrev : ∀ node link, prev (withPrev node link) = link
  next_withPrev : ∀ node link, next (withPrev node link) = next node
  prev_withNext : ∀ node link, prev (withNext node link) = prev node
  next_withNext : ∀ node link, next (withNext node link) = link

attribute [simp] LinkedNode.prev_withPrev LinkedNode.next_withPrev LinkedNode.prev_withNext
  LinkedNode.next_withNext

open LinkedNode

variable {α : Type} [LinkedNode α]

namespace Heap

def setPrev (heap : Heap α) (address : Addr) (link : Ptr) : Heap α :=
  heap.modify address (fun node => withPrev node link)

def setNext (heap : Heap α) (address : Addr) (link : Ptr) : Heap α :=
  heap.modify address (fun node => withNext node link)

@[simp] theorem setPrev_self (heap : Heap α) (address : Addr) (link : Ptr) :
    heap.setPrev address link address = (heap address).map (fun node => withPrev node link) := by
  simp [setPrev]

@[simp] theorem setPrev_other (heap : Heap α) {address other : Addr} (link : Ptr)
    (different : other ≠ address) : heap.setPrev address link other = heap other := by
  simp [setPrev, different]

@[simp] theorem setNext_self (heap : Heap α) (address : Addr) (link : Ptr) :
    heap.setNext address link address = (heap address).map (fun node => withNext node link) := by
  simp [setNext]

@[simp] theorem setNext_other (heap : Heap α) {address other : Addr} (link : Ptr)
    (different : other ≠ address) : heap.setNext address link other = heap other := by
  simp [setNext, different]

end Heap

/-- The nodes at `addresses` are allocated and linked to their neighbours in
that list, the first one back to `before` and the last one on to `after`. -/
def Segment (heap : Heap α) : Ptr → List Addr → Ptr → Prop
  | _, [], _ => True
  | before, address :: rest, after =>
      (∃ node, heap address = some node ∧ prev node = before ∧
        next node = rest.head?.or after) ∧
      Segment heap (some address) rest after

@[simp] theorem segment_nil (heap : Heap α) (before after : Ptr) :
    Segment heap before [] after := trivial

theorem segment_cons_iff {heap : Heap α} {before after : Ptr} {address : Addr}
    {rest : List Addr} :
    Segment heap before (address :: rest) after ↔
      (∃ node, heap address = some node ∧ prev node = before ∧
        next node = rest.head?.or after) ∧
      Segment heap (some address) rest after := Iff.rfl

theorem getLast?_cons_or (address : Addr) (rest : List Addr) (before : Ptr) :
    (address :: rest).getLast?.or before = rest.getLast?.or (some address) := by
  rw [List.getLast?_cons]
  cases rest.getLast? <;> rfl

theorem segment_append_iff {heap : Heap α} {before after : Ptr} {left right : List Addr} :
    Segment heap before (left ++ right) after ↔
      Segment heap before left (right.head?.or after) ∧
        Segment heap (left.getLast?.or before) right after := by
  induction left generalizing before with
  | nil => simp
  | cons address left ih =>
      rw [List.cons_append, segment_cons_iff, segment_cons_iff, ih, getLast?_cons_or]
      have heads : (left ++ right).head?.or after = left.head?.or (right.head?.or after) := by
        cases left <;> simp
      rw [heads, and_assoc]

theorem Segment.allocated {heap : Heap α} {before after : Ptr} {addresses : List Addr}
    (segment : Segment heap before addresses after) {address : Addr}
    (member : address ∈ addresses) : ∃ node, heap address = some node := by
  induction addresses generalizing before with
  | nil => simp at member
  | cons first rest ih =>
      obtain ⟨⟨node, found, -, -⟩, tail⟩ := segment
      rcases List.mem_cons.mp member with rfl | member
      · exact ⟨node, found⟩
      · exact ih tail member

/-- Where a segment starts decides which nodes a segment that ends at null goes through. -/
theorem Segment.unique {heap : Heap α} {before before' : Ptr} {first second : List Addr}
    (left : Segment heap before first none) (right : Segment heap before' second none)
    (heads : first.head? = second.head?) : first = second := by
  induction first generalizing before before' second with
  | nil => exact (List.head?_eq_none_iff.mp heads.symm).symm
  | cons address rest ih =>
      obtain ⟨others, rfl⟩ := List.head?_eq_some_iff.mp heads.symm
      obtain ⟨⟨node, found, -, forward⟩, leftRest⟩ := left
      obtain ⟨⟨node', found', -, forward'⟩, rightRest⟩ := right
      obtain rfl : node = node' := Option.some.inj (found.symm.trans found')
      have same : rest.head? = others.head? := by simpa [forward] using forward'
      rw [ih leftRest rightRest same]

/-- A segment only depends on its own nodes. -/
theorem Segment.frame {heap heap' : Heap α} {before after : Ptr} {addresses : List Addr}
    (segment : Segment heap before addresses after)
    (same : ∀ address ∈ addresses, heap' address = heap address) :
    Segment heap' before addresses after := by
  induction addresses generalizing before with
  | nil => trivial
  | cons first rest ih =>
      obtain ⟨⟨node, found, links⟩, tail⟩ := segment
      refine ⟨⟨node, ?_, links⟩, ih tail fun address member => ?_⟩
      · rw [same first List.mem_cons_self, found]
      · exact same address (List.mem_cons_of_mem _ member)

theorem Segment.setNext_other {heap : Heap α} {before after : Ptr} {addresses : List Addr}
    (segment : Segment heap before addresses after) {address : Addr}
    (outside : address ∉ addresses) (link : Ptr) :
    Segment (heap.setNext address link) before addresses after :=
  segment.frame fun _ member => Heap.setNext_other _ _ fun same => outside (same ▸ member)

theorem Segment.setPrev_other {heap : Heap α} {before after : Ptr} {addresses : List Addr}
    (segment : Segment heap before addresses after) {address : Addr}
    (outside : address ∉ addresses) (link : Ptr) :
    Segment (heap.setPrev address link) before addresses after :=
  segment.frame fun _ member => Heap.setPrev_other _ _ fun same => outside (same ▸ member)

theorem Segment.setNext_last {heap : Heap α} {before after : Ptr} {addresses : List Addr}
    {last : Addr} (segment : Segment heap before (addresses ++ [last]) after)
    (outside : last ∉ addresses) (link : Ptr) :
    Segment (heap.setNext last link) before (addresses ++ [last]) link := by
  obtain ⟨front, ⟨node, found, back, -⟩, -⟩ := segment_append_iff.mp segment
  refine segment_append_iff.mpr ⟨?_, ?_, trivial⟩
  · exact front.setNext_other outside link
  · exact ⟨withNext node link, by simp [found], by simpa using back, by simp⟩

theorem Segment.setPrev_first {heap : Heap α} {before after : Ptr} {first : Addr}
    {rest : List Addr} (segment : Segment heap before (first :: rest) after)
    (outside : first ∉ rest) (link : Ptr) :
    Segment (heap.setPrev first link) link (first :: rest) after := by
  obtain ⟨⟨node, found, -, forward⟩, tail⟩ := segment
  refine ⟨⟨withPrev node link, by simp [found], by simp, by simpa using forward⟩, ?_⟩
  exact tail.setPrev_other outside link

/-- Once its first node is freed, the rest of a segment is one of its own. -/
theorem Segment.erase_first {heap : Heap α} {before after : Ptr} {first : Addr}
    {rest : List Addr} (segment : Segment heap before (first :: rest) after)
    (outside : first ∉ rest) : Segment (heap.erase first) (some first) rest after :=
  segment.2.frame fun _ member => Heap.erase_other _ fun same => outside (same ▸ member)

theorem segment_middle_iff {heap : Heap α} {before after : Ptr} {left right : List Addr}
    {address : Addr} :
    Segment heap before (left ++ address :: right) after ↔
      Segment heap before left (some address) ∧
        (∃ node, heap address = some node ∧ prev node = left.getLast?.or before ∧
          next node = right.head?.or after) ∧
        Segment heap (some address) right after := by
  rw [segment_append_iff, segment_cons_iff]
  simp

/-! ## Splicing -/

theorem Heap.setNext_setPrev_comm (heap : Heap α) {left right : Addr}
    (different : left ≠ right) (forward back : Ptr) :
    (heap.setNext left forward).setPrev right back =
      (heap.setPrev right back).setNext left forward := by
  funext other
  by_cases isLeft : other = left
  · subst other; simp [different]
  · by_cases isRight : other = right
    · subst other; simp [isLeft]
    · simp [isLeft, isRight]

theorem Heap.setPrev_erase_comm (heap : Heap α) {address erased : Addr}
    (different : address ≠ erased) (link : Ptr) :
    (heap.erase erased).setPrev address link = (heap.setPrev address link).erase erased := by
  funext other
  by_cases gone : other = erased
  · subst other; simp [different.symm]
  · by_cases same : other = address
    · subst other; simp [gone]
    · simp [gone, same]

theorem Segment.modify {heap : Heap α} {before after : Ptr} {addresses : List Addr}
    (segment : Segment heap before addresses after) (address : Addr) {change : α → α}
    (keepsPrev : ∀ node, prev (change node) = prev node)
    (keepsNext : ∀ node, next (change node) = next node) :
    Segment (heap.modify address change) before addresses after := by
  induction addresses generalizing before with
  | nil => trivial
  | cons first rest ih =>
      obtain ⟨⟨node, found, back, forward⟩, tail⟩ := segment
      refine ⟨?_, ih tail⟩
      by_cases same : first = address
      · subst same
        exact ⟨change node, by simp [found], by rw [keepsPrev, back], by rw [keepsNext, forward]⟩
      · exact ⟨node, by simp [same, found], back, forward⟩

theorem Segment.insert {heap : Heap α} {before after : Ptr} {front back : List Addr}
    {last first address : Addr} {node : α}
    (segment : Segment heap before ((front ++ [last]) ++ first :: back) after)
    (distinct : ((front ++ [last]) ++ first :: back).Nodup)
    (fresh : address ∉ (front ++ [last]) ++ first :: back) (found : heap address = some node) :
    Segment ((((heap.setNext address (some first)).setPrev address (some last)).setNext last
        (some address)).setPrev first (some address))
      before ((front ++ [last]) ++ address :: first :: back) after := by
  obtain ⟨leading, trailing⟩ := segment_append_iff.mp segment
  obtain ⟨leadingDistinct, trailingDistinct, disjoint⟩ := List.nodup_append.mp distinct
  have notLeading : address ∉ front ++ [last] := fun member =>
    fresh (List.mem_append_left _ member)
  have notTrailing : address ∉ first :: back := fun member =>
    fresh (List.mem_append_right _ member)
  have lastOutside : last ∉ front := fun member => by
    simpa using (List.nodup_append.mp leadingDistinct).2.2 last member last (by simp)
  have firstOutside : first ∉ front ++ [last] := fun member =>
    disjoint first member first List.mem_cons_self rfl
  have lastOutsideBack : last ∉ first :: back := fun member =>
    disjoint last (by simp) last member rfl
  have notLast : address ≠ last := fun same => notLeading (by simp [same])
  have notFirst : address ≠ first := fun same => notTrailing (by simp [same])
  refine segment_middle_iff.mpr ⟨?_, ?_, ?_⟩
  · refine Segment.setPrev_other ?_ firstOutside _
    exact ((leading.setNext_other notLeading _).setPrev_other notLeading _).setNext_last
      lastOutside _
  · refine ⟨withPrev (withNext node (some first)) (some last), ?_, by simp, by simp⟩
    simp [notLast, notFirst, found]
  · have untouched :=
      ((trailing.setNext_other notTrailing (some first)).setPrev_other notTrailing
        (some last)).setNext_other lastOutsideBack (some address)
    exact untouched.setPrev_first (List.nodup_cons.mp trailingDistinct).1 _

theorem Segment.snoc {heap : Heap α} {before after : Ptr} {front : List Addr}
    {last address : Addr} {node : α} (segment : Segment heap before (front ++ [last]) after)
    (distinct : (front ++ [last]).Nodup) (fresh : address ∉ front ++ [last])
    (found : heap address = some node) (link : Ptr) :
    Segment (((heap.setNext last (some address)).setNext address link).setPrev address (some last))
      before ((front ++ [last]) ++ [address]) link := by
  have lastOutside : last ∉ front := fun member => by
    simpa using (List.nodup_append.mp distinct).2.2 last member last (by simp)
  have notLast : address ≠ last := fun same => fresh (by simp [same])
  refine segment_middle_iff.mpr ⟨?_, ?_, trivial⟩
  · exact ((segment.setNext_last lastOutside _).setNext_other fresh _).setPrev_other fresh _
  · refine ⟨withPrev (withNext node link) (some last), ?_, by simp, by simp⟩
    simp [notLast, found]

theorem Segment.push {heap : Heap α} {before after : Ptr} {back : List Addr}
    {first address : Addr} {node : α} (segment : Segment heap before (first :: back) after)
    (distinct : (first :: back).Nodup) (fresh : address ∉ first :: back)
    (found : heap address = some node) (back_eq : prev node = before) :
    Segment ((heap.setPrev first (some address)).setNext address (some first))
      before (address :: first :: back) after := by
  have notFirst : address ≠ first := fun same => fresh (by simp [same])
  refine ⟨⟨withNext node (some first), by simp [notFirst, found], by simpa using back_eq,
    by simp⟩, ?_⟩
  exact (segment.setPrev_first (List.nodup_cons.mp distinct).1 _).setNext_other fresh _

/-- Unlinking a node between two neighbours; its own links stay as they were. -/
theorem Segment.unlink {heap : Heap α} {before after : Ptr} {front back : List Addr}
    {last first address : Addr}
    (segment : Segment heap before ((front ++ [last]) ++ address :: first :: back) after)
    (distinct : ((front ++ [last]) ++ address :: first :: back).Nodup) :
    Segment ((heap.setPrev first (some last)).setNext last (some first))
      before ((front ++ [last]) ++ first :: back) after := by
  obtain ⟨leading, -, trailing⟩ := segment_middle_iff.mp segment
  obtain ⟨leadingDistinct, trailingDistinct, disjoint⟩ := List.nodup_append.mp distinct
  have lastOutside : last ∉ front := fun member => by
    simpa using (List.nodup_append.mp leadingDistinct).2.2 last member last (by simp)
  have firstOutside : first ∉ front ++ [last] := fun member =>
    disjoint first member first (by simp) rfl
  have lastOutsideBack : last ∉ first :: back := fun member =>
    disjoint last (by simp) last (List.mem_cons_of_mem _ member) rfl
  refine segment_append_iff.mpr ⟨?_, ?_⟩
  · exact (leading.setPrev_other firstOutside _).setNext_last lastOutside _
  · have inner := (List.nodup_cons.mp (List.nodup_cons.mp trailingDistinct).2).1
    simpa using (trailing.setPrev_first inner (some last)).setNext_other lastOutsideBack _

end HPLinuxServer.Memory
