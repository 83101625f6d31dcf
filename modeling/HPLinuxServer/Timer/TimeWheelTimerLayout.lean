import HPLinuxServer.Timer.TimeWheelTimerProperties

/-!
# What a whole time wheel holds

Sixty slots, each with its own list of waiting timers, and no timer object
besides. A member function changes the list of one slot.
-/

set_option autoImplicit false

namespace HPLinuxServer.Timer

open Memory Waiting TimeWheelTimer

variable {γ υ ω : Type}

structure Layout (wheel : TimeWheelTimer γ υ ω) (slots : Nat → List (Waiting γ υ)) : Prop where
  buckets : ∀ slot, slot < 60 → Bucket wheel (slot : Nat) (slots slot)
  allocated : ∀ address, (wheel.timers address).isSome = true ↔
    ∃ slot, slot < 60 ∧ address ∈ addresses (slots slot)

namespace Layout

variable {wheel wheel' : TimeWheelTimer γ υ ω} {slots slots' : Nat → List (Waiting γ υ)}

theorem frame (layout : Layout wheel slots) (sameSlots : wheel'.slots = wheel.slots)
    (sameTimers : wheel'.timers = wheel.timers) : Layout wheel' slots where
  buckets slot within :=
    (layout.buckets slot within).frame (by rw [sameSlots]) fun _ _ => by rw [sameTimers]
  allocated address := by rw [sameTimers, layout.allocated]

theorem congr (layout : Layout wheel slots) (same : ∀ slot, slot < 60 → slots' slot = slots slot) :
    Layout wheel slots' where
  buckets slot within := by
    rw [same slot within]
    exact layout.buckets slot within
  allocated address := by
    rw [layout.allocated]
    refine exists_congr fun slot => and_congr_right fun within => ?_
    rw [same slot within]

theorem slot_unique (layout : Layout wheel slots) {address : Addr} {slot other : Nat}
    (within : slot < 60) (within' : other < 60) (here : address ∈ addresses (slots slot))
    (there : address ∈ addresses (slots other)) : slot = other := by
  by_contra different
  exact (layout.buckets other within').disjoint (layout.buckets slot within) (by omega)
    address here there

/-- A change to the list of one slot that touches no objects but those of this list, and maybe
objects that were not there before. -/
theorem update (layout : Layout wheel slots) {index : Nat} (within : index < 60)
    {inside : List Addr} (confined : Confined (index : Nat) inside wheel wheel')
    (covers : ∀ address ∈ addresses (slots index), address ∈ inside)
    (owned : ∀ address ∈ inside, address ∈ addresses (slots index) ∨ wheel.timers address = none)
    (bucket : Bucket wheel' (index : Nat) (slots' index))
    (gone : ∀ address ∈ inside, address ∉ addresses (slots' index) →
      wheel'.timers address = none)
    (elsewhere : ∀ slot, slot < 60 → slot ≠ index → slots' slot = slots slot) :
    Layout wheel' slots' := by
  have buckets : ∀ slot, slot < 60 → Bucket wheel' (slot : Nat) (slots' slot) := by
    intro slot within'
    by_cases same : slot = index
    · subst same
      exact bucket
    · rw [elsewhere slot within' same]
      apply (layout.buckets slot within').elsewhere confined (by omega)
      intro address there inside
      rcases owned address inside with here | absent
      · exact same (layout.slot_unique within' within there here)
      · have live := (layout.allocated address).mpr ⟨slot, within', there⟩
        simp [absent] at live
  refine ⟨buckets, fun address => ⟨fun live => ?_, ?_⟩⟩
  · by_cases touched : address ∈ inside
    · by_cases stays : address ∈ addresses (slots' index)
      · exact ⟨index, within, stays⟩
      · simp [gone address touched stays] at live
    · rw [confined.cells address touched] at live
      obtain ⟨slot, within', there⟩ := (layout.allocated address).mp live
      have different : slot ≠ index := by
        rintro rfl
        exact touched (covers address there)
      exact ⟨slot, within', by rwa [elsewhere slot within' different]⟩
  · rintro ⟨slot, within', there⟩
    obtain ⟨node, found⟩ := (buckets slot within').linked.allocated there
    exact Option.isSome_iff_exists.mpr ⟨node, found⟩

/-- `add_timer`, and then the callback: the new timer stands in front of its slot. -/
theorem add (layout : Layout wheel slots) {timeout : Int} (valid : 0 ≤ timeout)
    (cursor : 0 ≤ wheel.curSlot) (room : wheel.curSlot + offset timeout ≤ 2147483647) {index : Nat}
    (within : index < 60) (place : (index : Int) = (wheel.curSlot + offset timeout).tmod N)
    {address : Addr} (fresh : wheel.timers address = none) (cbFunc : γ) (userData : υ)
    (here : slots' index =
      ⟨address, (offset timeout).tdiv N, some (cbFunc, userData)⟩ :: slots index)
    (elsewhere : ∀ slot, slot < 60 → slot ≠ index → slots' slot = slots slot) :
    ∃ made wheel', wheel.addTimer timeout address = .ok (made, some address) ∧
      made.world = wheel.world ∧
      made.storeCallback (some address) cbFunc userData = .ok wheel' ∧ Layout wheel' slots' ∧
      wheel'.curSlot = wheel.curSlot ∧ wheel'.world = wheel.world := by
  have absent : address ∉ addresses (slots index) := by
    intro member
    have live := (layout.allocated address).mpr ⟨index, within, member⟩
    simp [fresh] at live
  obtain ⟨made, added, bucketMade, confinedMade, worldMade⟩ :=
    addTimer_spec valid cursor room place (layout.buckets index within) absent
  obtain ⟨wheel', set, bucket, confinedSet, world⟩ :=
    storeCallback_spec bucketMade cbFunc userData
  have confined := confinedMade.trans confinedSet
  refine ⟨made, wheel', added, worldMade, set, ?_, confined.curSlot, world.trans worldMade⟩
  apply layout.update within confined
  · exact fun other member => List.mem_cons_of_mem _ member
  · intro other member
    rcases List.mem_cons.mp member with rfl | member
    · exact .inr fresh
    · exact .inl member
  · rw [here]
    exact bucket
  · intro other member outside
    exact absurd (by rwa [here]) outside
  · exact elsewhere

end Layout

end HPLinuxServer.Timer
