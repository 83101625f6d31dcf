import HPLinuxServer.Timer.TimeWheelTimerRuns

/-!
# The slots that a time wheel computes

`cur_slot + offset` is computed as an `int`. As long as it fits, the rotation and the
distance of the slot from the cursor are the quotient and the remainder of the offset.
-/

set_option autoImplicit false

namespace HPLinuxServer.Timer

open Memory Scheduling Refinement TimeWheelTimer

variable {γ υ ω : Type}

/-- `add_timer` computes no `int` out of range, uses a slot of the wheel, and the rotation
and the slot of the new timer give back how many slots ahead the timeout reaches. -/
def TimeWheelTimer.SlotsTimeout (wheel : TimeWheelTimer γ υ ω) (timeout : Int) (address : Addr) :
    Prop :=
  ∃ wheel' node, wheel.addTimer timeout address = .ok (wheel', some address) ∧
    wheel'.timers address = some node ∧ 0 ≤ node.timeSlot ∧ node.timeSlot < N ∧
    node.rotation * N + (node.timeSlot - wheel.curSlot) % N = max 1 (timeout / SI)

/-- The slot and the rotation of an offset, seen from the cursor, are the offset. -/
theorem rotation_slot_offset {offset cursor : Int} (later : 0 ≤ offset) (inside : 0 ≤ cursor) :
    offset.tdiv N * N + ((cursor + offset).tmod N - cursor) % N = offset := by
  rw [Int.tdiv_eq_ediv_of_nonneg later, Int.tmod_eq_emod_of_nonneg (by omega)]
  unfold N
  omega

namespace Represents

variable {wheel : JournaledWheel γ υ ω} {schedule : Schedule γ υ}

theorem slotsTimeout_iff (represents : Represents wheel schedule) {timeout : Int}
    (valid : 0 ≤ timeout) {address : Addr} (fresh : wheel.timers address = none) :
    wheel.SlotsTimeout timeout address ↔ timeout ≤ 2147483647 - wheel.curSlot := by
  have curSlot := represents.curSlot
  have one := one_le_offset valid
  have offsetEq := offset_eq valid
  have quotient : timeout / SI = timeout := Int.ediv_one timeout
  have fits : timeout ≤ 2147483647 - wheel.curSlot ↔
      wheel.curSlot + offset timeout ≤ 2147483647 := by
    rw [offsetEq, quotient]
    omega
  rw [fits]
  constructor
  · rintro ⟨wheel', node, added, -⟩
    unfold addTimer at added
    rw [if_neg (by omega)] at added
    obtain ⟨sum, computed, -⟩ := bind_eq_ok_iff.mp added
    unfold checkInt at computed
    by_cases range : -2147483648 ≤ wheel.curSlot + offset timeout ∧
        wheel.curSlot + offset timeout ≤ 2147483647
    · exact range.2
    · rw [if_neg range] at computed
      cases computed
  · intro room
    have here : position 60 (schedule.ticks % 60) ((offset timeout).toNat + 1) < 60 :=
      position_lt (by decide) _ _
    have place : (position 60 (schedule.ticks % 60) ((offset timeout).toNat + 1) : Int) =
        (wheel.curSlot + offset timeout).tmod N := by
      rw [curSlot]
      exact position_offset valid _
    have absent : address ∉ Waiting.addresses
        (schedule.waitingAt (position 60 (schedule.ticks % 60) ((offset timeout).toNat + 1))) := by
      intro member
      have live := (represents.allocated address).mpr
        (Schedule.mem_addresses_iff.mpr ⟨_, here, member⟩)
      rw [fresh] at live
      cases live
    obtain ⟨wheel', added, bucket, -⟩ :=
      addTimer_spec valid (by omega) room place (represents.buckets _ here) absent
    obtain ⟨node, found, slot, rotation, -⟩ := (bucket.stored _ List.mem_cons_self).found
    refine ⟨wheel', node, added, found, ?_, ?_, ?_⟩
    · rw [slot]
      exact Int.natCast_nonneg _
    · rw [slot]
      exact Int.ofNat_lt.mpr here
    · rw [slot, rotation, place, ← offsetEq]
      exact rotation_slot_offset (by omega) (by omega)

end Represents

/-- However a wheel was reached, a timeout is turned into a slot and a rotation exactly if
it is no more than the greatest `int` less the position of the cursor. -/
theorem timeWheelTimer_slots_iff (effect : γ → υ → ω → ω) (world : ω) (ops : List (WheelOp γ υ))
    (allowed : AllowedRun Schedule.Allowed Schedule.step .init ops) (fuel : Nat)
    (enough : ops.length ≤ fuel) :
    ∃ wheel, run effect fuel (TimeWheelTimer.init { world }) ops = .ok wheel ∧
      ∀ timeout address, 0 ≤ timeout → timeout ≤ 2147483647 → wheel.timers address = none →
        (wheel.SlotsTimeout timeout address ↔ timeout ≤ 2147483647 - wheel.curSlot) := by
  obtain ⟨wheel, done, represents⟩ := TimeWheelTimer.run_represents effect world allowed enough
  exact ⟨wheel, done, fun timeout address valid _ fresh => represents.slotsTimeout_iff valid fresh⟩

theorem timeWheelTimer_slots_iff_sampleWheelOps :
    ∃ wheel, run (fun _ _ _ => ()) 80 (TimeWheelTimer.init { world := () })
        (.add 60 7 () () :: sampleWheelOps) = .ok wheel ∧
      ∀ timeout address, 0 ≤ timeout → timeout ≤ 2147483647 → wheel.timers address = none →
        (wheel.SlotsTimeout timeout address ↔ timeout ≤ 2147483647 - wheel.curSlot) :=
  timeWheelTimer_slots_iff (fun _ _ _ => ()) () (.add 60 7 () () :: sampleWheelOps) (by decide) 80
    (by decide)

/-- One tick, and the longest timeout. -/
theorem timeWheelTimer_slots_overflow :
    ∃ wheel, run (fun (_ _ _ : Unit) => ()) 1 (TimeWheelTimer.init { world := () }) [.tick] =
        .ok wheel ∧
      ¬ wheel.SlotsTimeout 2147483647 9 := by
  have overflows : (run (fun (_ _ _ : Unit) => ()) 1 (TimeWheelTimer.init { world := () })
      [.tick]).map (fun wheel => (wheel.addTimer 2147483647 9).map Prod.snd) =
        .ok (.error .signedOverflow) := by decide +kernel
  cases done : run (fun (_ _ _ : Unit) => ()) 1 (TimeWheelTimer.init { world := () }) [.tick] with
  | error fault => rw [done] at overflows; exact nomatch overflows
  | ok wheel =>
      rw [done] at overflows
      refine ⟨wheel, rfl, ?_⟩
      rintro ⟨wheel', node, added, -⟩
      have failed : (wheel.addTimer 2147483647 9).map Prod.snd = .error .signedOverflow :=
        Except.ok.inj overflows
      rw [added] at failed
      exact nomatch failed

end HPLinuxServer.Timer
