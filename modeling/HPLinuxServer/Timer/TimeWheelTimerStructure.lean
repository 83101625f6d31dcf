import HPLinuxServer.Timer.TimeWheelTimerRuns

/-!
# The lists of a time wheel

What a run of calls leaves in the sixty slots: proper doubly linked lists of the
timers that were made, not deleted and not called back yet. Which timers these are
is read off the calls and the record of callbacks.
-/

set_option autoImplicit false

namespace HPLinuxServer.Timer

open Memory Scheduling Refinement TimeWheelTimer

variable {γ υ ω : Type}

/-- The timers that were made and not deleted, with their numbers. -/
structure Ledger where
  added : Nat := 0
  kept : List (Nat × Addr) := []

namespace Ledger

def step (ledger : Ledger) : WheelOp γ υ → Ledger
  | .add timeout timer _ _ =>
      if timeout < 0 then ledger
      else { added := ledger.added + 1, kept := (ledger.added, timer) :: ledger.kept }
  | .del timer => { ledger with kept := ledger.kept.filter fun entry => some entry.2 ≠ timer }
  | .tick => ledger

/-- Its callback has not been invoked. -/
def unfired (calls : List (Call γ υ)) (entry : Nat × Addr) : Bool :=
  calls.all fun call => call.number ≠ entry.1

end Ledger

/-- The timers that `add_timer` returned and that were neither deleted nor fired. -/
def liveTimers (ops : List (WheelOp γ υ)) (calls : List (Call γ υ)) : List Addr :=
  ((ops.foldl Ledger.step {}).kept.filter (Ledger.unfired calls)).map Prod.snd

/-- The wheel with its lists and its live timers. -/
structure Structured (wheel : TimeWheelTimer γ υ ω) (slots : Nat → List Addr) (live : List Addr) :
    Prop where
  cursor : 0 ≤ wheel.curSlot ∧ wheel.curSlot < N
  head : ∀ index : Nat, index < N → wheel.slots index = (slots index).head?
  linked : ∀ index : Nat, index < N → Segment wheel.timers none (slots index) none
  once : ∀ index : Nat, index < N → (slots index).Nodup
  listed : ∀ index : Nat, index < N → ∀ timer ∈ slots index, timer ∈ live
  placed : ∀ timer ∈ live, ∃ node, wheel.timers timer = some node ∧ 0 ≤ node.rotation ∧
    ∃ index : Nat, index < N ∧ node.timeSlot = index ∧ timer ∈ slots index ∧
      ∀ other : Nat, other < N → timer ∈ slots other → other = index

/-! ## The live timers -/

/-- The ledger without the fired timers is the schedule. -/
structure Ledger.Agrees (ledger : Ledger) (schedule : Schedule γ υ) : Prop where
  added : ledger.added = schedule.added
  numbered : schedule.Numbered
  distinct : (schedule.entries.map Countdown.number).Nodup
  kept : ledger.kept.filter (Ledger.unfired schedule.calls) =
    schedule.entries.map fun entry => (entry.number, entry.timer)

namespace Ledger.Agrees

variable {ledger : Ledger} {schedule : Schedule γ υ}

theorem add (agrees : ledger.Agrees schedule) {timeout : Int} (valid : ¬ timeout < 0)
    (timer : Addr) (cbFunc : γ) (userData : υ) :
    (ledger.step (.add timeout timer cbFunc userData)).Agrees
      (schedule.step (.add timeout timer cbFunc userData)) := by
  have numbered := agrees.numbered.step (.add timeout timer cbFunc userData)
  have fresh : Ledger.unfired schedule.calls (schedule.added, timer) = true := by
    apply List.all_eq_true.mpr
    intro call member
    exact decide_eq_true (Nat.ne_of_lt (agrees.numbered.calls call member))
  unfold Ledger.step
  simp only [Schedule.step, if_neg valid] at numbered ⊢
  constructor
  · rw [agrees.added]
  · exact numbered
  · apply List.nodup_cons.mpr
    refine ⟨?_, agrees.distinct⟩
    intro member
    obtain ⟨entry, present, same⟩ := List.mem_map.mp member
    exact Nat.ne_of_lt (agrees.numbered.entries entry present) same
  · rw [agrees.added, List.filter_cons_of_pos fresh, agrees.kept, List.map_cons]

theorem del (agrees : ledger.Agrees schedule) (timer : Addr) :
    (ledger.step (.del (some timer) : WheelOp γ υ)).Agrees (schedule.step (.del (some timer))) := by
  have numbered := agrees.numbered.step (.del (some timer))
  constructor
  · exact agrees.added
  · exact numbered
  · exact agrees.distinct.sublist (List.filter_sublist.map _)
  · simp only [Ledger.step, Schedule.step]
    rw [List.filter_comm, agrees.kept, List.filter_map]
    congr 1
    apply List.filter_congr
    intro entry _
    simp

/-- The timers of the schedule that a tick calls back are those that leave it. -/
theorem tick (agrees : ledger.Agrees schedule) :
    (ledger.step (.tick : WheelOp γ υ)).Agrees (schedule.step .tick) := by
  have numbered := agrees.numbered.step .tick
  have stays : ∀ entry ∈ schedule.entries,
      Ledger.unfired (schedule.entries.filterMap (Countdown.call schedule.ticks))
        (entry.number, entry.timer) = decide (¬ entry.remaining ≤ 1) := by
    intro entry member
    by_cases due : entry.remaining ≤ 1
    · rw [decide_eq_false (not_not.mpr due)]
      apply Bool.eq_false_iff.mpr
      intro unfired
      have called : ⟨schedule.ticks, entry.number, entry.cbFunc, entry.userData⟩ ∈
          schedule.entries.filterMap (Countdown.call schedule.ticks) :=
        List.mem_filterMap.mpr ⟨entry, member, if_pos due⟩
      simpa using List.all_eq_true.mp unfired _ called
    · rw [decide_eq_true due]
      apply List.all_eq_true.mpr
      intro call called
      apply decide_eq_true
      intro same
      obtain ⟨other, otherMember, otherDue, its⟩ := Schedule.mem_calls_tick called
      have equal := List.inj_on_of_nodup_map agrees.distinct otherMember member (its.trans same)
      exact due (equal ▸ otherDue)
  have remain : schedule.entries.filterMap Countdown.tick =
      (schedule.entries.filter fun entry => decide (¬ entry.remaining ≤ 1)).map
        fun entry => { entry with remaining := entry.remaining - 1 } := by
    rw [← List.filterMap_eq_map, List.filterMap_filter]
    apply List.filterMap_congr
    intro entry _
    unfold Countdown.tick
    by_cases due : entry.remaining ≤ 1 <;> simp [due]
  constructor
  · exact agrees.added
  · exact numbered
  · simp only [Schedule.step, remain, List.map_map]
    exact agrees.distinct.sublist (List.filter_sublist.map _)
  · have both : Ledger.unfired (schedule.step .tick).calls = fun entry =>
        Ledger.unfired (schedule.entries.filterMap (Countdown.call schedule.ticks)) entry &&
          Ledger.unfired schedule.calls entry := by
      funext entry
      rw [Bool.and_comm]
      exact List.all_append
    rw [both]
    simp only [Ledger.step]
    rw [← List.filter_filter, agrees.kept, List.filter_map]
    simp only [Schedule.step, remain, List.map_map]
    exact congrArg (List.map _) (List.filter_congr stays)

theorem step (agrees : ledger.Agrees schedule) (op : WheelOp γ υ) :
    (ledger.step op).Agrees (schedule.step op) := by
  cases op with
  | add timeout timer cbFunc userData =>
      by_cases negative : timeout < 0
      · unfold Ledger.step Schedule.step
        simp only [if_pos negative]
        exact agrees
      · exact agrees.add negative timer cbFunc userData
  | del timer =>
      cases timer with
      | none =>
          have same : ledger.step (.del none : WheelOp γ υ) = ledger := by
            simp [Ledger.step]
          rw [same]
          exact agrees
      | some timer => exact agrees.del timer
  | tick => exact agrees.tick

theorem run (agrees : ledger.Agrees schedule) (ops : List (WheelOp γ υ)) :
    (ops.foldl Ledger.step ledger).Agrees (ops.foldl Schedule.step schedule) := by
  induction ops generalizing ledger schedule with
  | nil => exact agrees
  | cons op ops ih => exact ih (agrees.step op)

end Ledger.Agrees

theorem liveTimers_eq (ops : List (WheelOp γ υ)) :
    liveTimers ops (ops.foldl Schedule.step .init).calls =
      (ops.foldl Schedule.step (.init : Schedule γ υ)).addresses := by
  have start : ({} : Ledger).Agrees (.init : Schedule γ υ) :=
    ⟨rfl, ⟨by simp [Schedule.init], by simp [Schedule.init]⟩, List.nodup_nil, rfl⟩
  unfold liveTimers
  rw [(start.run ops).kept, List.map_map]
  rfl

/-! ## The slots -/

namespace Represents

variable {wheel : JournaledWheel γ υ ω} {schedule : Schedule γ υ}

theorem structured (represents : Represents wheel schedule) :
    Structured wheel (fun index => Waiting.addresses (schedule.waitingAt index))
      schedule.addresses := by
  have sixty : N = 60 := rfl
  constructor
  · rw [represents.curSlot]
    have inside := Nat.mod_lt schedule.ticks (by decide : 0 < 60)
    omega
  · intro index inside
    exact (represents.buckets index (by omega)).head
  · intro index inside
    exact (represents.buckets index (by omega)).linked
  · intro index inside
    exact (represents.buckets index (by omega)).distinct
  · intro index inside timer member
    exact Schedule.mem_addresses_iff.mpr ⟨index, by omega, member⟩
  · intro timer live
    obtain ⟨index, inside, here⟩ := Schedule.mem_addresses_iff.mp live
    obtain ⟨waiting, member, rfl⟩ := List.mem_map.mp here
    obtain ⟨node, found, timeSlot, rotation, -⟩ :=
      ((represents.buckets index inside).stored waiting member).found
    refine ⟨node, found, ?_, index, by omega, timeSlot, here, ?_⟩
    · obtain ⟨entry, -, waits⟩ := List.mem_filterMap.mp member
      rw [rotation, (Countdown.waitingAt_eq_some waits).2]
      exact Int.natCast_nonneg _
    · intro other inside' there
      exact represents.layout.slot_unique (by omega) inside there here

theorem payload (represents : Represents wheel schedule) {timer : Addr}
    (live : timer ∈ schedule.addresses) :
    ∃ index waiting, index < 60 ∧ waiting ∈ schedule.waitingAt index ∧ waiting.timer = timer ∧
      (wheel.timers timer).map TwTimer.payload =
        some ((index : Int), waiting.rotation, waiting.callback) := by
  obtain ⟨index, inside, here⟩ := Schedule.mem_addresses_iff.mp live
  obtain ⟨waiting, member, rfl⟩ := List.mem_map.mp here
  exact ⟨index, waiting, inside, member, rfl, (represents.buckets index inside).stored waiting member⟩

theorem payload_del (represents : Represents wheel schedule) {wheel' : JournaledWheel γ υ ω}
    {timer : Addr} (represents' : Represents wheel' (schedule.step (.del (some timer))))
    {other : Addr} (different : other ≠ timer) :
    (wheel'.timers other).map TwTimer.payload = (wheel.timers other).map TwTimer.payload := by
  by_cases live : other ∈ (schedule.step (.del (some timer))).addresses
  · obtain ⟨index, waiting, inside, member, rfl, payload⟩ := represents'.payload live
    rw [schedule.waitingAt_del] at member
    have stored := (represents.buckets index inside).stored waiting (List.mem_of_mem_filter member)
    exact payload.trans stored.symm
  · have dead : other ∉ schedule.addresses := by
      intro member
      obtain ⟨entry, present, rfl⟩ := List.mem_map.mp member
      exact live (List.mem_map_of_mem (List.mem_filter.mpr ⟨present, by simpa using different⟩))
    rw [represents.unallocated dead, represents'.unallocated live]

end Represents

/-- After every sequence of calls the cursor is in its range, the slots are linked
lists, and each live timer is in the slot that it names, once. A deletion of a live
timer takes it out of its list and changes nothing else. -/
theorem timeWheelTimer_structure (effect : γ → υ → ω → ω) (world : ω) (ops : List (WheelOp γ υ))
    (allowed : AllowedRun Schedule.Allowed Schedule.step .init ops) (fuel : Nat)
    (enough : ops.length ≤ fuel) :
    ∃ wheel slots, run effect fuel (TimeWheelTimer.init { world }) ops = .ok wheel ∧
      Structured wheel slots (liveTimers ops wheel.world.calls) ∧
      ∀ timer ∈ liveTimers ops wheel.world.calls,
        ∃ wheel', wheel.delTimer (some timer) = .ok wheel' ∧
          Structured wheel' (fun index => (slots index).filter (· ≠ timer))
            ((liveTimers ops wheel.world.calls).filter (· ≠ timer)) ∧
          wheel'.timers timer = none ∧
          ∀ other, other ≠ timer →
            (wheel'.timers other).map TwTimer.payload =
              (wheel.timers other).map TwTimer.payload := by
  obtain ⟨wheel, done, represents⟩ := TimeWheelTimer.run_represents effect world allowed enough
  have live := liveTimers_eq ops
  rw [← represents.calls] at live
  refine ⟨wheel, _, done, live ▸ represents.structured, ?_⟩
  rw [live]
  intro timer member
  obtain ⟨wheel', deleted, represents', -⟩ := represents.exec_del effect fuel member
  refine ⟨wheel', deleted, ?_, ?_, fun other => represents.payload_del represents'⟩
  · have structured := represents'.structured
    simp only [Schedule.waitingAt_del] at structured
    unfold Waiting.addresses Schedule.addresses at structured ⊢
    simp only [List.filter_map]
    exact structured
  · apply represents'.unallocated
    intro still
    obtain ⟨entry, present, same⟩ := List.mem_map.mp still
    simpa [same] using List.of_mem_filter present

theorem timeWheelTimer_structure_sampleWheelOps :
    ∃ wheel slots, run (fun _ _ _ => ()) 80 (TimeWheelTimer.init { world := () })
        (.add 60 7 () () :: sampleWheelOps) = .ok wheel ∧
      Structured wheel slots (liveTimers (.add 60 7 () () :: sampleWheelOps) wheel.world.calls) ∧
      ∀ timer ∈ liveTimers (.add 60 7 () () :: sampleWheelOps) wheel.world.calls,
        ∃ wheel', wheel.delTimer (some timer) = .ok wheel' ∧
          Structured wheel' (fun index => (slots index).filter (· ≠ timer))
            ((liveTimers (.add 60 7 () () :: sampleWheelOps) wheel.world.calls).filter
              (· ≠ timer)) ∧
          wheel'.timers timer = none ∧
          ∀ other, other ≠ timer →
            (wheel'.timers other).map TwTimer.payload =
              (wheel.timers other).map TwTimer.payload :=
  timeWheelTimer_structure (fun _ _ _ => ()) () (.add 60 7 () () :: sampleWheelOps) (by decide) 80
    (by decide)

end HPLinuxServer.Timer
