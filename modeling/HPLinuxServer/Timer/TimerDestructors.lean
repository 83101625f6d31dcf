import HPLinuxServer.Timer.SortTimerLstRuns
import HPLinuxServer.Timer.TimeWheelTimerRuns

/-!
# The end of a timer container

The destructors of `sort_timer_lst` and `time_wheel_timer`, and what a container owns
from its constructor to its destructor: a timer that is freed twice is a fault, and one
that is not freed is still there at the end.
-/

set_option autoImplicit false

namespace HPLinuxServer.Timer

open Memory Scheduling Refinement

variable {γ υ ω : Type}

/-! ## The sorted list -/

namespace SortTimerLst

/-- The loop of the destructor, from `tmp` on. -/
def destroyLoop (fuel : Nat) (list : SortTimerLst γ υ ω) (tmp : Ptr) :
    Except Fault (SortTimerLst γ υ ω) :=
  match tmp with
  | none => .ok list
  | some _ =>
      match fuel with
      | 0 => .error .outOfFuel
      | fuel + 1 => do
          let list := { list with head := (← list.load list.head).next }
          let list ← list.delete tmp
          destroyLoop fuel list list.head

/-- `~sort_timer_lst` -/
def destroy (fuel : Nat) (list : SortTimerLst γ υ ω) : Except Fault (SortTimerLst γ υ ω) :=
  destroyLoop fuel list list.head

/-- The loop frees the timers of the list, and nothing else. -/
theorem destroyLoop_spec {list : SortTimerLst γ υ ω} {before : Ptr} {addresses : List Addr}
    (head : list.head = addresses.head?) (linked : Segment list.timers before addresses none)
    (distinct : addresses.Nodup) {fuel : Nat} (enough : addresses.length ≤ fuel) :
    ∃ list', destroyLoop fuel list list.head = .ok list' ∧ list'.head = none ∧
      (∀ address ∈ addresses, list'.timers address = none) ∧
      (∀ address, address ∉ addresses → list'.timers address = list.timers address) ∧
      list'.world = list.world := by
  induction addresses generalizing list before fuel with
  | nil =>
      have ended : list.head = none := head
      refine ⟨list, ?_, ended, fun _ member => absurd member List.not_mem_nil, fun _ _ => rfl, rfl⟩
      rw [ended, destroyLoop.eq_def]
  | cons first rest ih =>
      obtain ⟨outside, restDistinct⟩ := List.nodup_cons.mp distinct
      obtain ⟨node, found, -, forward⟩ := linked.1
      have next : node.next = rest.head? := forward.trans (Option.or_none)
      have isFirst : list.head = some first := head
      cases fuel with
      | zero => exact absurd enough (Nat.not_succ_le_zero _)
      | succ fuel =>
          let shorter : SortTimerLst γ υ ω :=
            { list with head := node.next, timers := list.timers.erase first }
          have heads : shorter.head = rest.head? := next
          obtain ⟨list', done, ended, freed, kept, world⟩ :=
            ih heads (linked.erase_first outside) restDistinct (Nat.le_of_succ_le_succ enough)
          refine ⟨list', ?_, ended, fun address member => ?_, fun address away => ?_, world⟩
          · rw [isFirst]
            unfold destroyLoop
            have deleted : SortTimerLst.delete { list with head := node.next } (some first) =
                .ok shorter := delete_some node found
            simp only [isFirst, load_some node found, ok_bind] at deleted ⊢
            rw [deleted]
            exact done
          · by_cases here : address ∈ rest
            · exact freed address here
            · obtain rfl : address = first := (List.mem_cons.mp member).resolve_right here
              exact (kept address here).trans (Heap.erase_self _ _)
          · obtain ⟨other, later⟩ := not_or.mp (List.mem_cons.not.mp away)
            exact (kept address later).trans (Heap.erase_other _ other)

end SortTimerLst

/-- From its constructor to its destructor a list that is used as allowed frees every timer it
was given, each of them once; the destructor runs no callback. -/
theorem sortTimerLst_lifetime (effect : γ → υ → ω → ω) (world : ω) {ops : List (ListOp γ υ)}
    (allowed : AllowedRun Agenda.Allowed Agenda.step [] ops) {fuel : Nat}
    (enough : ops.length ≤ fuel) :
    ∃ list list', SortTimerLst.run (SortTimerLst.quiet effect) fuel (SortTimerLst.init world) ops =
        .ok list ∧
      list.destroy fuel = .ok list' ∧ list'.timers = Heap.empty ∧ list'.head = none ∧
      list'.world = list.world := by
  obtain ⟨list, ran, formed⟩ := SortTimerLst.run_wellFormed effect (wellFormed_init world) allowed
    (by simpa using enough)
  have few : (Agenda.addresses (ops.foldl Agenda.step [])).length ≤ fuel := by
    unfold Agenda.addresses
    rw [List.length_map]
    exact Nat.le_trans (size_foldl_le List.length Agenda.length_step_le [] ops) (by simpa using enough)
  obtain ⟨list', freed, ended, gone, kept, same⟩ :=
    SortTimerLst.destroyLoop_spec formed.chain.head formed.chain.linked formed.chain.distinct few
  refine ⟨list, list', ran, freed, ?_, ended, same⟩
  funext address
  by_cases live : address ∈ Agenda.addresses (ops.foldl Agenda.step [])
  · exact gone address live
  · rw [kept address live]
    exact Option.not_isSome_iff_eq_none.mp ((formed.allocated address).not.mpr live)

/-- Two timers, of which one goes off before the list is given up. -/
theorem sortTimerLst_lifetime_one_left :
    ∃ list list' : SortTimerLst Unit Unit Unit,
      SortTimerLst.run (SortTimerLst.quiet fun _ _ world => world) 3 (SortTimerLst.init ())
          [.add ⟨1, 5, (), ()⟩, .add ⟨2, 9, (), ()⟩, .tick 6] = .ok list ∧
        list.destroy 3 = .ok list' ∧ list'.timers = Heap.empty ∧ list'.head = none ∧
        list'.world = list.world :=
  sortTimerLst_lifetime (fun _ _ world => world) () (by decide) (Nat.le_refl 3)

/-! ## The wheel -/

namespace TimeWheelTimer

/-- The inner loop of the destructor, over slot `index` from `tmp` on. -/
def destroySlot (fuel : Nat) (wheel : TimeWheelTimer γ υ ω) (index : Int) (tmp : Ptr) :
    Except Fault (TimeWheelTimer γ υ ω) :=
  match tmp with
  | none => .ok wheel
  | some _ =>
      match fuel with
      | 0 => .error .outOfFuel
      | fuel + 1 => do
          let wheel ← wheel.storeSlot index (← wheel.load tmp).next
          let wheel ← wheel.delete tmp
          destroySlot fuel wheel index (← wheel.slot index)

/-- The outer loop, from slot `i` on with `rounds` slots left. -/
def destroyLoop (fuel : Nat) (wheel : TimeWheelTimer γ υ ω) (i : Nat) :
    Nat → Except Fault (TimeWheelTimer γ υ ω)
  | 0 => .ok wheel
  | rounds + 1 => do
      let wheel ← wheel.destroySlot fuel i (← wheel.slot i)
      wheel.destroyLoop fuel (i + 1) rounds

/-- `~time_wheel_timer` -/
def destroy (fuel : Nat) (wheel : TimeWheelTimer γ υ ω) : Except Fault (TimeWheelTimer γ υ ω) :=
  wheel.destroyLoop fuel 0 N.toNat

theorem destroySlot_spec {wheel : TimeWheelTimer γ υ ω} {index : Int} (low : 0 ≤ index)
    (high : index < N) {before : Ptr} {addresses : List Addr}
    (head : wheel.slots index = addresses.head?)
    (linked : Segment wheel.timers before addresses none) (distinct : addresses.Nodup)
    {fuel : Nat} (enough : addresses.length ≤ fuel) :
    ∃ wheel', destroySlot fuel wheel index (wheel.slots index) = .ok wheel' ∧
      wheel'.slots index = none ∧ (∀ address ∈ addresses, wheel'.timers address = none) ∧
      Confined index addresses wheel wheel' ∧ wheel'.world = wheel.world := by
  induction addresses generalizing wheel before fuel with
  | nil =>
      have ended : wheel.slots index = none := head
      refine ⟨wheel, ?_, ended, fun _ member => absurd member List.not_mem_nil, .refl wheel, rfl⟩
      rw [ended, destroySlot.eq_def]
  | cons first rest ih =>
      obtain ⟨outside, restDistinct⟩ := List.nodup_cons.mp distinct
      obtain ⟨node, found, -, forward⟩ := linked.1
      have next : node.next = rest.head? := forward.trans (Option.or_none)
      have isFirst : wheel.slots index = some first := head
      cases fuel with
      | zero => exact absurd enough (Nat.not_succ_le_zero _)
      | succ fuel =>
          let shorter : TimeWheelTimer γ υ ω := { wheel with
            slots := fun other => if other = index then node.next else wheel.slots other
            timers := wheel.timers.erase first }
          have front : shorter.slots index = node.next := if_pos rfl
          obtain ⟨wheel', done, ended, freed, confined, world⟩ :=
            ih (front.trans next) (linked.erase_first outside) restDistinct
              (Nat.le_of_succ_le_succ enough)
          have cut : Confined index (first :: rest) wheel shorter :=
            { slots := fun other different => if_neg different
              cells := fun address away =>
                Heap.erase_other _ fun same => away (same ▸ List.mem_cons_self)
              curSlot := rfl }
          refine ⟨wheel', ?_, ended, fun address member => ?_,
            cut.trans (confined.mono fun _ => List.mem_cons_of_mem _), world⟩
          · rw [isFirst]
            unfold destroySlot
            have deleted : TimeWheelTimer.delete { wheel with
                slots := fun other => if other = index then node.next else wheel.slots other }
                (some first) = .ok shorter := delete_some node found
            simp only [load_some node found, storeSlot_eq low high, ok_bind] at deleted ⊢
            rw [deleted]
            simp only [slot_eq low high, ok_bind]
            exact done
          · by_cases here : address ∈ rest
            · exact freed address here
            · obtain rfl : address = first := (List.mem_cons.mp member).resolve_right here
              exact (confined.cells address here).trans (Heap.erase_self _ _)

theorem destroyLoop_spec {wheel : TimeWheelTimer γ υ ω} {slots : Nat → List (Waiting γ υ)}
    (layout : Layout wheel slots) {i rounds : Nat} (all : i + rounds = 60)
    (behind : ∀ slot, slot < i → slots slot = []) {fuel : Nat}
    (enough : ∀ slot, (slots slot).length ≤ fuel) :
    ∃ wheel', wheel.destroyLoop fuel i rounds = .ok wheel' ∧ Layout wheel' (fun _ => []) ∧
      wheel'.world = wheel.world := by
  induction rounds generalizing wheel slots i with
  | zero => exact ⟨wheel, rfl, layout.congr fun slot within => (behind slot (by omega)).symm, rfl⟩
  | succ rounds ih =>
      have within : i < 60 := by omega
      have low : (0 : Int) ≤ (i : Nat) := Int.natCast_nonneg i
      have high : ((i : Nat) : Int) < N := by
        unfold N
        omega
      have bucket := layout.buckets i within
      have short : (Waiting.addresses (slots i)).length ≤ fuel := by
        unfold Waiting.addresses
        rw [List.length_map]
        exact enough i
      obtain ⟨emptied, done, ended, freed, confined, world⟩ :=
        destroySlot_spec low high bucket.head bucket.linked bucket.distinct short
      let left : Nat → List (Waiting γ υ) := fun slot => if slot = i then [] else slots slot
      have cleared : left i = [] := if_pos rfl
      have layout' : Layout emptied left := by
        apply layout.update within confined (fun _ member => member) (fun _ member => .inl member)
        · rw [cleared]
          exact ⟨ended, trivial, List.nodup_nil, fun _ member => absurd member List.not_mem_nil⟩
        · exact fun address member _ => freed address member
        · exact fun slot _ different => if_neg different
      have behind' : ∀ slot, slot < i + 1 → left slot = [] := by
        intro slot before
        by_cases here : slot = i
        · rw [here, cleared]
        · exact (if_neg here).trans (behind slot (by omega))
      have enough' : ∀ slot, (left slot).length ≤ fuel := by
        intro slot
        by_cases here : slot = i
        · rw [here, cleared]
          exact Nat.zero_le fuel
        · exact (congrArg List.length (if_neg here)).trans_le (enough slot)
      obtain ⟨wheel', finished, empty, same⟩ := ih layout' (by omega) behind' enough'
      refine ⟨wheel', ?_, empty, same.trans world⟩
      unfold destroyLoop
      rw [slot_eq low high]
      simp only [ok_bind, done]
      exact finished

end TimeWheelTimer

/-- The same of a wheel; every slot is empty at its end. -/
theorem timeWheelTimer_lifetime (effect : γ → υ → ω → ω) (world : ω) {ops : List (WheelOp γ υ)}
    (allowed : AllowedRun Schedule.Allowed Schedule.step .init ops) {fuel : Nat}
    (enough : ops.length ≤ fuel) :
    ∃ wheel wheel', TimeWheelTimer.run effect fuel (TimeWheelTimer.init { world }) ops = .ok wheel ∧
      wheel.destroy fuel = .ok wheel' ∧ wheel'.timers = Heap.empty ∧
      (∀ slot, slot < 60 → wheel'.slots (slot : Nat) = none) ∧ wheel'.world = wheel.world := by
  obtain ⟨wheel, ran, represents⟩ := TimeWheelTimer.run_represents effect world allowed enough
  have grown : (ops.foldl Schedule.step Schedule.init).entries.length ≤ 0 + ops.length :=
    size_foldl_le (fun schedule : Schedule γ υ => schedule.entries.length) Schedule.length_step_le
      Schedule.init ops
  have few : (ops.foldl Schedule.step Schedule.init).entries.length ≤ fuel := by omega
  obtain ⟨wheel', freed, empty, same⟩ := TimeWheelTimer.destroyLoop_spec represents.layout
    (show 0 + 60 = 60 from rfl) (fun _ before => absurd before (Nat.not_lt_zero _))
    fun slot => Nat.le_trans (List.length_filterMap_le _ _) few
  refine ⟨wheel, wheel', ran, freed, ?_, fun slot within => (empty.buckets slot within).head, same⟩
  funext address
  refine Option.not_isSome_iff_eq_none.mp fun live => ?_
  obtain ⟨slot, -, member⟩ := (empty.allocated address).mp live
  exact List.not_mem_nil member

/-- Two timers in one slot, one of which was deleted, and one in another slot. -/
theorem timeWheelTimer_lifetime_two_left :
    ∃ wheel wheel' : JournaledWheel Unit Unit Unit,
      TimeWheelTimer.run (fun _ _ world => world) 5 (TimeWheelTimer.init { world := () })
          [.add 3 1 () (), .add 63 2 () (), .add 5 3 () (), .del (some 1), .tick] = .ok wheel ∧
        wheel.destroy 5 = .ok wheel' ∧ wheel'.timers = Heap.empty ∧
        (∀ slot, slot < 60 → wheel'.slots (slot : Nat) = none) ∧ wheel'.world = wheel.world :=
  timeWheelTimer_lifetime (fun _ _ world => world) () (by decide) (Nat.le_refl 5)

end HPLinuxServer.Timer
