import HPLinuxServer.Refinement.Runs
import HPLinuxServer.Scheduling.Agenda
import HPLinuxServer.Scheduling.Wheel
import HPLinuxServer.Timer.TimeWheelTimerLayout

/-!
# Runs of a time wheel

Any sequence of `add_timer`, `del_timer` and `tick`, from an empty wheel. Next to
the wheel goes a schedule that counts every timer down to its tick; slots and
rotations are only the way the wheel stores these counts.
-/

set_option autoImplicit false

namespace HPLinuxServer.Timer

open Memory Scheduling Refinement TimeWheelTimer

variable {γ υ ω : Type}

/-- A call by the owner of the wheel. `add` gives the address that `new` chooses
and sets the callback of the timer if one was made. -/
inductive WheelOp (γ υ : Type) where
  | add (timeout : Int) (timer : Addr) (cbFunc : γ) (userData : υ)
  | del (timer : Ptr)
  | tick
  deriving DecidableEq, Repr

/-- A callback that was invoked: in which tick, and for which timer, both counted
from zero. -/
structure Call (γ υ : Type) where
  tick : Nat
  number : Nat
  cbFunc : γ
  userData : υ
  deriving DecidableEq, Repr

/-- The rest of the program, with a record of the timers made, the ticks and the
callbacks so far. -/
structure Journal (γ υ ω : Type) where
  world : ω
  added : Nat := 0
  ticks : Nat := 0
  calls : List (Call γ υ) := []

/-- A callback with its effect and its entry in the record. -/
def journaled (effect : γ → υ → ω → ω) (cbFunc : γ) (userData : Nat × υ)
    (journal : Journal γ υ ω) : Journal γ υ ω :=
  { journal with
    world := effect cbFunc userData.2 journal.world
    calls := journal.calls ++ [⟨journal.ticks, userData.1, cbFunc, userData.2⟩] }

abbrev JournaledWheel (γ υ ω : Type) := TimeWheelTimer γ (Nat × υ) (Journal γ υ ω)

namespace TimeWheelTimer

def exec (effect : γ → υ → ω → ω) (fuel : Nat) (wheel : JournaledWheel γ υ ω) :
    WheelOp γ υ → Except Fault (JournaledWheel γ υ ω)
  | .add timeout address cbFunc userData => do
      let (wheel, timer) ← wheel.addTimer timeout address
      if timer.isNone then
        return wheel
      else
        let wheel ← wheel.storeCallback timer cbFunc (wheel.world.added, userData)
        return { wheel with world := { wheel.world with added := wheel.world.added + 1 } }
  | .del timer => wheel.delTimer timer
  | .tick => do
      let wheel ← wheel.tick (quiet (journaled effect)) fuel
      return { wheel with world := { wheel.world with ticks := wheel.world.ticks + 1 } }

/-- The calls of `ops` in order, each tick with room for `fuel` timers in a slot. -/
def run (effect : γ → υ → ω → ω) (fuel : Nat) (wheel : JournaledWheel γ υ ω)
    (ops : List (WheelOp γ υ)) : Except Fault (JournaledWheel γ υ ω) :=
  runOps (exec effect fuel) wheel ops

end TimeWheelTimer

/-! ## The schedule -/

/-- A live timer that is due in the `remaining`-th tick from now. -/
structure Countdown (γ υ : Type) where
  timer : Addr
  remaining : Nat
  number : Nat
  cbFunc : γ
  userData : υ
  deriving DecidableEq, Repr

namespace Countdown

def tick (entry : Countdown γ υ) : Option (Countdown γ υ) :=
  if entry.remaining ≤ 1 then none else some { entry with remaining := entry.remaining - 1 }

def call (ticks : Nat) (entry : Countdown γ υ) : Option (Call γ υ) :=
  if entry.remaining ≤ 1 then some ⟨ticks, entry.number, entry.cbFunc, entry.userData⟩ else none

variable {entry : Countdown γ υ}

theorem tick_due (due : entry.remaining ≤ 1) : entry.tick = none := if_pos due

theorem tick_later (later : ¬ entry.remaining ≤ 1) :
    entry.tick = some { entry with remaining := entry.remaining - 1 } := if_neg later

theorem call_due (due : entry.remaining ≤ 1) (ticks : Nat) :
    entry.call ticks = some ⟨ticks, entry.number, entry.cbFunc, entry.userData⟩ := if_pos due

theorem call_later (later : ¬ entry.remaining ≤ 1) (ticks : Nat) : entry.call ticks = none :=
  if_neg later

end Countdown

structure Schedule (γ υ : Type) where
  added : Nat := 0
  ticks : Nat := 0
  calls : List (Call γ υ) := []
  entries : List (Countdown γ υ) := []

namespace Schedule

def init : Schedule γ υ := {}

def addresses (schedule : Schedule γ υ) : List Addr := schedule.entries.map Countdown.timer

def step (schedule : Schedule γ υ) : WheelOp γ υ → Schedule γ υ
  | .add timeout timer cbFunc userData =>
      if timeout < 0 then schedule
      else
        { schedule with
          added := schedule.added + 1
          entries := ⟨timer, (offset timeout).toNat + 1, schedule.added, cbFunc, userData⟩ ::
            schedule.entries }
  | .del none => schedule
  | .del (some timer) =>
      { schedule with entries := schedule.entries.filter fun entry => entry.timer ≠ timer }
  | .tick =>
      { schedule with
        ticks := schedule.ticks + 1
        calls := schedule.calls ++ schedule.entries.filterMap (Countdown.call schedule.ticks)
        entries := schedule.entries.filterMap Countdown.tick }

/-- What the callers keep to: a timer is made at an address that is not in use
and for a slot number that fits an `int`, and only live timers are deleted. -/
def Allowed (schedule : Schedule γ υ) : WheelOp γ υ → Prop
  | .add timeout timer _ _ => 0 ≤ timeout →
      timer ∉ schedule.addresses ∧
        ((schedule.ticks % 60 : Nat) : Int) + offset timeout ≤ 2147483647
  | .del timer => ∀ address ∈ timer, address ∈ schedule.addresses
  | .tick => True

instance (schedule : Schedule γ υ) : (op : WheelOp γ υ) → Decidable (schedule.Allowed op)
  | .add timeout timer _ _ => inferInstanceAs (Decidable (0 ≤ timeout →
      timer ∉ schedule.addresses ∧
        ((schedule.ticks % 60 : Nat) : Int) + offset timeout ≤ 2147483647))
  | .del timer => inferInstanceAs (Decidable (∀ address ∈ timer, address ∈ schedule.addresses))
  | .tick => inferInstanceAs (Decidable True)

end Schedule

/-! ## How the wheel stores the schedule -/

/-- What slot `slot` holds of a timer while the cursor is at `cursor`. -/
def Countdown.waitingAt (cursor slot : Nat) (entry : Countdown γ υ) :
    Option (Waiting γ (Nat × υ)) :=
  if position 60 cursor entry.remaining = slot then
    some ⟨entry.timer, (laps 60 entry.remaining : Nat),
      some (entry.cbFunc, (entry.number, entry.userData))⟩
  else none

def Schedule.waitingAt (schedule : Schedule γ υ) (slot : Nat) : List (Waiting γ (Nat × υ)) :=
  schedule.entries.filterMap (Countdown.waitingAt (schedule.ticks % 60) slot)

structure Represents (wheel : JournaledWheel γ υ ω) (schedule : Schedule γ υ) : Prop where
  curSlot : wheel.curSlot = ((schedule.ticks % 60 : Nat) : Int)
  buckets : ∀ slot, slot < 60 → Bucket wheel (slot : Nat) (schedule.waitingAt slot)
  allocated : ∀ address, (wheel.timers address).isSome = true ↔ address ∈ schedule.addresses
  distinct : schedule.addresses.Nodup
  positive : ∀ entry ∈ schedule.entries, 1 ≤ entry.remaining
  added : wheel.world.added = schedule.added
  ticks : wheel.world.ticks = schedule.ticks
  calls : wheel.world.calls = schedule.calls

theorem represents_init (world : ω) :
    Represents (TimeWheelTimer.init { world } : JournaledWheel γ υ ω) Schedule.init where
  curSlot := rfl
  buckets _ _ := ⟨rfl, trivial, by simp [Schedule.waitingAt, Schedule.init], by
    simp [Schedule.waitingAt, Schedule.init]⟩
  allocated := by simp [TimeWheelTimer.init, Schedule.init, Schedule.addresses]
  distinct := List.nodup_nil
  positive := by simp [Schedule.init]
  added := rfl
  ticks := rfl
  calls := rfl

namespace Countdown

variable {entries : List (Countdown γ υ)} {cursor : Nat} {address : Addr}

theorem waitingAt_eq_some {entry : Countdown γ υ} {slot : Nat} {waiting : Waiting γ (Nat × υ)}
    (here : entry.waitingAt cursor slot = some waiting) :
    position 60 cursor entry.remaining = slot ∧
      waiting = ⟨entry.timer, (laps 60 entry.remaining : Nat),
        some (entry.cbFunc, (entry.number, entry.userData))⟩ := by
  unfold waitingAt at here
  split at here
  · exact ⟨‹_›, (Option.some.inj here).symm⟩
  · cases here

theorem mem_waitingAt {slot : Nat} :
    address ∈ Waiting.addresses (entries.filterMap (waitingAt cursor slot)) ↔
      ∃ entry ∈ entries, entry.timer = address ∧ position 60 cursor entry.remaining = slot := by
  simp only [Waiting.addresses, List.mem_map, List.mem_filterMap]
  constructor
  · rintro ⟨waiting, ⟨entry, member, here⟩, rfl⟩
    obtain ⟨there, rfl⟩ := waitingAt_eq_some here
    exact ⟨entry, member, rfl, there⟩
  · rintro ⟨entry, member, rfl, here⟩
    exact ⟨_, ⟨entry, member, if_pos here⟩, rfl⟩

theorem mem_some_slot_iff :
    (∃ slot, slot < 60 ∧ address ∈ Waiting.addresses (entries.filterMap (waitingAt cursor slot))) ↔
      address ∈ entries.map Countdown.timer := by
  simp only [mem_waitingAt, List.mem_map]
  constructor
  · rintro ⟨slot, -, entry, member, same, -⟩
    exact ⟨entry, member, same⟩
  · rintro ⟨entry, member, rfl⟩
    exact ⟨_, position_lt (by decide) _ _, entry, member, rfl, rfl⟩

end Countdown

/-- In the schedule a deletion removes its timer from each slot, and nothing else. -/
theorem Schedule.waitingAt_del (schedule : Schedule γ υ) (timer : Addr) (index : Nat) :
    (schedule.step (.del (some timer))).waitingAt index =
      (schedule.waitingAt index).filter fun entry => entry.timer ≠ timer := by
  unfold Schedule.waitingAt
  rw [List.filter_filterMap]
  simp only [Schedule.step, List.filterMap_filter]
  apply List.filterMap_congr
  intro entry _
  unfold Countdown.waitingAt
  by_cases there : position 60 (schedule.ticks % 60) entry.remaining = index
  · by_cases same : entry.timer = timer <;> simp [there, same, Option.filter]
  · simp [there]

theorem Schedule.waitingAt_cons (schedule : Schedule γ υ) (added : Nat) (entry : Countdown γ υ) :
    waitingAt { schedule with added, entries := entry :: schedule.entries }
        (position 60 (schedule.ticks % 60) entry.remaining) =
      ⟨entry.timer, (laps 60 entry.remaining : Nat),
          some (entry.cbFunc, (entry.number, entry.userData))⟩ ::
        schedule.waitingAt (position 60 (schedule.ticks % 60) entry.remaining) :=
  List.filterMap_cons_some (if_pos rfl)

theorem Schedule.waitingAt_cons_elsewhere (schedule : Schedule γ υ) (added : Nat)
    {entry : Countdown γ υ} {slot : Nat}
    (elsewhere : position 60 (schedule.ticks % 60) entry.remaining ≠ slot) :
    waitingAt { schedule with added, entries := entry :: schedule.entries } slot =
      schedule.waitingAt slot :=
  List.filterMap_cons_none (if_neg elsewhere)

theorem Schedule.mem_addresses_iff {schedule : Schedule γ υ} {address : Addr} :
    address ∈ schedule.addresses ↔
      ∃ slot, slot < 60 ∧ address ∈ Waiting.addresses (schedule.waitingAt slot) :=
  Countdown.mem_some_slot_iff.symm

theorem Represents.layout {wheel : JournaledWheel γ υ ω} {schedule : Schedule γ υ}
    (represents : Represents wheel schedule) : Layout wheel schedule.waitingAt where
  buckets := represents.buckets
  allocated address := (represents.allocated address).trans Schedule.mem_addresses_iff

theorem Represents.unallocated {wheel : JournaledWheel γ υ ω} {schedule : Schedule γ υ}
    (represents : Represents wheel schedule) {timer : Addr} (dead : timer ∉ schedule.addresses) :
    wheel.timers timer = none := by
  cases found : wheel.timers timer with
  | none => rfl
  | some node => exact absurd ((represents.allocated timer).mp (by simp [found])) dead

theorem Layout.allocated_iff {wheel : JournaledWheel γ υ ω} {schedule : Schedule γ υ}
    (layout : Layout wheel schedule.waitingAt) (address : Addr) :
    (wheel.timers address).isSome = true ↔ address ∈ schedule.addresses :=
  (layout.allocated address).trans Schedule.mem_addresses_iff.symm

/-! ### A tick -/

namespace Countdown

variable {cursor slot : Nat} {entry : Countdown γ υ}

theorem waitingAt_tick (inside : cursor < 60) (positive : 1 ≤ entry.remaining)
    (elsewhere : slot ≠ cursor) :
    entry.tick.bind (waitingAt ((cursor + 1) % 60) slot) = entry.waitingAt cursor slot := by
  unfold Countdown.tick
  split
  · have last : entry.remaining = 1 := by omega
    rw [Option.bind_none, waitingAt, last, position_one inside, if_neg elsewhere.symm]
  · have later : 2 ≤ entry.remaining := by omega
    rw [Option.bind_some, waitingAt, waitingAt]
    simp only [position_advance later]
    split
    · have away : position 60 cursor entry.remaining ≠ cursor := by omega
      rw [laps_elsewhere inside later away]
    · rfl

/-- In the slot under the cursor it takes one rotation off every timer that has
one, and the timers without one are those that are due. -/
theorem waitingAt_tick_visited (inside : cursor < 60) (positive : 1 ≤ entry.remaining) :
    entry.tick.bind (waitingAt ((cursor + 1) % 60) cursor) =
      (entry.waitingAt cursor cursor).bind Waiting.advance := by
  unfold Countdown.tick
  split
  · have last : entry.remaining = 1 := by omega
    simp [waitingAt, last, position_one inside, laps_one, Waiting.advance]
  · have later : 2 ≤ entry.remaining := by omega
    simp only [Option.bind_some, waitingAt, position_advance later]
    split
    · rename_i here
      have fewer := laps_visited inside later here
      have turns : ((laps 60 entry.remaining : Nat) : Int) > 0 := by omega
      simp only [Option.bind_some, Waiting.advance, if_pos turns]
      simp [fewer]
    · rfl

/-- The timers whose callback runs in the slot under the cursor are those due now. -/
theorem advance_waitingAt (inside : cursor < 60) (positive : 1 ≤ entry.remaining)
    {waiting : Waiting γ (Nat × υ)} (here : entry.waitingAt cursor cursor = some waiting) :
    waiting.advance = none ↔ entry.remaining ≤ 1 := by
  obtain ⟨visited, rfl⟩ := waitingAt_eq_some here
  simp only [Waiting.advance, ite_eq_right_iff, reduceCtorEq, imp_false]
  constructor
  · intro noTurns
    by_contra later
    have fewer := laps_visited inside (by omega) visited
    omega
  · intro due
    have last : entry.remaining = 1 := by omega
    simp [last, laps_one]

end Countdown

/-- The callbacks of the slot under the cursor enter the record in the order of
the schedule. -/
theorem fire_waitingAt (effect : γ → υ → ω → ω) {cursor : Nat} (inside : cursor < 60)
    {entries : List (Countdown γ υ)} (positive : ∀ entry ∈ entries, 1 ≤ entry.remaining)
    (journal : Journal γ υ ω) :
    ∃ world, Waiting.fire (journaled effect)
        (entries.filterMap (Countdown.waitingAt cursor cursor)) journal =
      { journal with
        world
        calls := journal.calls ++ entries.filterMap (Countdown.call journal.ticks) } := by
  induction entries generalizing journal with
  | nil => exact ⟨journal.world, by simp [Waiting.fire]⟩
  | cons entry entries ih =>
      have positiveRest : ∀ other ∈ entries, 1 ≤ other.remaining := fun other member =>
        positive other (List.mem_cons_of_mem _ member)
      have positiveEntry := positive entry List.mem_cons_self
      cases here : entry.waitingAt cursor cursor with
      | none =>
          have notDue : ¬ entry.remaining ≤ 1 := by
            intro due
            have last : entry.remaining = 1 := by omega
            simp [Countdown.waitingAt, last, position_one inside] at here
          obtain ⟨world, fired⟩ := ih positiveRest journal
          refine ⟨world, ?_⟩
          rw [List.filterMap_cons_none here, fired,
            List.filterMap_cons_none (Countdown.call_later notDue journal.ticks)]
      | some waiting =>
          have callback : waiting.callback = some (entry.cbFunc, (entry.number, entry.userData)) :=
            congrArg Waiting.callback (Countdown.waitingAt_eq_some here).2
          rw [List.filterMap_cons_some here]
          by_cases due : entry.remaining ≤ 1
          · have leaves := (Countdown.advance_waitingAt inside positiveEntry here).mpr due
            obtain ⟨world, fired⟩ := ih positiveRest
              (journaled effect entry.cbFunc (entry.number, entry.userData) journal)
            refine ⟨world, ?_⟩
            rw [List.filterMap_cons_some (Countdown.call_due due journal.ticks)]
            simp only [Waiting.fire, leaves, callback, fired]
            simp [journaled]
          · have stays : waiting.advance ≠ none := fun leaves =>
              due ((Countdown.advance_waitingAt inside positiveEntry here).mp leaves)
            obtain ⟨advanced, stays⟩ := Option.ne_none_iff_exists'.mp stays
            obtain ⟨world, fired⟩ := ih positiveRest journal
            refine ⟨world, ?_⟩
            rw [List.filterMap_cons_none (Countdown.call_later due journal.ticks)]
            simp only [Waiting.fire, stays, callback, fired]

theorem Schedule.waitingAt_tick_visited {schedule : Schedule γ υ}
    (positive : ∀ entry ∈ schedule.entries, 1 ≤ entry.remaining) :
    (schedule.step .tick).waitingAt (schedule.ticks % 60) =
      (schedule.waitingAt (schedule.ticks % 60)).filterMap Waiting.advance := by
  have cursor : (schedule.ticks + 1) % 60 = (schedule.ticks % 60 + 1) % 60 := by omega
  unfold Schedule.waitingAt
  simp only [Schedule.step, List.filterMap_filterMap, cursor]
  exact List.filterMap_congr fun entry member =>
    Countdown.waitingAt_tick_visited (Nat.mod_lt _ (by decide)) (positive entry member)

theorem Schedule.waitingAt_tick_elsewhere {schedule : Schedule γ υ}
    (positive : ∀ entry ∈ schedule.entries, 1 ≤ entry.remaining) {slot : Nat}
    (elsewhere : slot ≠ schedule.ticks % 60) :
    (schedule.step .tick).waitingAt slot = schedule.waitingAt slot := by
  have cursor : (schedule.ticks + 1) % 60 = (schedule.ticks % 60 + 1) % 60 := by omega
  unfold Schedule.waitingAt
  simp only [Schedule.step, List.filterMap_filterMap, cursor]
  exact List.filterMap_congr fun entry member =>
    Countdown.waitingAt_tick (Nat.mod_lt _ (by decide)) (positive entry member) elsewhere

theorem TimeWheelTimer.cursor_moved (ticks : Nat) :
    (((ticks % 60 : Nat) : Int) + 1).tmod N = (((ticks + 1) % 60 : Nat) : Int) := by
  have moved : (((ticks % 60 : Nat) : Int) + 1).tmod N = (((ticks % 60 : Nat) : Int) + 1) % 60 :=
    Int.tmod_eq_emod_of_nonneg (by omega)
  rw [moved]
  omega

theorem map_tick_sublist {κ : Type} (key : Countdown γ υ → κ)
    (kept : ∀ (entry : Countdown γ υ) (remaining : Nat), key { entry with remaining } = key entry)
    (entries : List (Countdown γ υ)) :
    List.Sublist ((entries.filterMap Countdown.tick).map key) (entries.map key) := by
  induction entries with
  | nil => exact List.Sublist.refl _
  | cons entry entries ih =>
      by_cases due : entry.remaining ≤ 1
      · rw [List.filterMap_cons_none (Countdown.tick_due due)]
        exact ih.cons _
      · rw [List.filterMap_cons_some (Countdown.tick_later due), List.map_cons, List.map_cons, kept]
        exact ih.cons_cons _

/-! ### The operations -/

/-- The slot that `add_timer` computes is the one of the count. -/
theorem TimeWheelTimer.position_offset {timeout : Int} (valid : 0 ≤ timeout) (cursor : Nat) :
    (position 60 cursor ((offset timeout).toNat + 1) : Int) =
      ((cursor : Int) + offset timeout).tmod N := by
  have one := one_le_offset valid
  have moved : ((cursor : Int) + offset timeout).tmod N = ((cursor : Int) + offset timeout) % 60 :=
    Int.tmod_eq_emod_of_nonneg (by omega)
  rw [moved]
  unfold position
  omega

theorem TimeWheelTimer.laps_offset {timeout : Int} (valid : 0 ≤ timeout) :
    (laps 60 ((offset timeout).toNat + 1) : Int) = (offset timeout).tdiv N := by
  have one := one_le_offset valid
  have divided : (offset timeout).tdiv N = offset timeout / 60 :=
    Int.tdiv_eq_ediv_of_nonneg (by omega)
  rw [divided]
  unfold laps
  omega

theorem TimeWheelTimer.exec_add_negative (effect : γ → υ → ω → ω) (fuel : Nat) {wheel : JournaledWheel γ υ ω}
    {timeout : Int} (negative : timeout < 0) {timer : Addr} {cbFunc : γ} {userData : υ} :
    exec effect fuel wheel (.add timeout timer cbFunc userData) = .ok wheel := by
  simp only [exec, addTimer_negative negative, ok_bind, Option.isNone_none, ↓reduceIte, pure_eq_ok]

/-- The new timer stands in front of its slot, whatever the slots hold. -/
theorem Layout.exec_add (effect : γ → υ → ω → ω) (fuel : Nat) {wheel : JournaledWheel γ υ ω}
    {slots slots' : Nat → List (Waiting γ (Nat × υ))} (layout : Layout wheel slots) {cursor : Nat}
    (curSlot : wheel.curSlot = (cursor : Nat)) {timeout : Int} (valid : 0 ≤ timeout)
    (room : (cursor : Int) + offset timeout ≤ 2147483647) {timer : Addr}
    (fresh : wheel.timers timer = none) {cbFunc : γ} {userData : υ}
    (here : slots' (position 60 cursor ((offset timeout).toNat + 1)) =
      ⟨timer, (laps 60 ((offset timeout).toNat + 1) : Nat),
          some (cbFunc, (wheel.world.added, userData))⟩ ::
        slots (position 60 cursor ((offset timeout).toNat + 1)))
    (elsewhere : ∀ slot, slot < 60 → slot ≠ position 60 cursor ((offset timeout).toNat + 1) →
      slots' slot = slots slot) :
    ∃ wheel', exec effect fuel wheel (.add timeout timer cbFunc userData) = .ok wheel' ∧
      Layout wheel' slots' ∧ wheel'.curSlot = wheel.curSlot ∧
      wheel'.world = { wheel.world with added := wheel.world.added + 1 } := by
  have place : (position 60 cursor ((offset timeout).toNat + 1) : Int) =
      (wheel.curSlot + offset timeout).tmod N := by
    rw [curSlot]
    exact position_offset valid cursor
  rw [laps_offset valid] at here
  obtain ⟨made, wheel', added, worldMade, set, layout', curSlot', world⟩ :=
    layout.add valid (by rw [curSlot]; omega) (by rw [curSlot]; omega)
      (position_lt (by decide) _ _) place fresh cbFunc (wheel.world.added, userData) here elsewhere
  refine ⟨{ wheel' with world := { wheel'.world with added := wheel'.world.added + 1 } }, ?_,
    layout'.frame rfl rfl, curSlot', by rw [world]⟩
  simp only [exec, added, ok_bind, Option.isNone_some, Bool.false_eq_true, ↓reduceIte, worldMade,
    set, pure_eq_ok]

namespace Represents

variable {wheel : JournaledWheel γ υ ω} {schedule : Schedule γ υ}

theorem exec_tick (effect : γ → υ → ω → ω) (represents : Represents wheel schedule) {fuel : Nat}
    (enough : schedule.entries.length ≤ fuel) :
    ∃ wheel', exec effect fuel wheel .tick = .ok wheel' ∧
      Represents wheel' (schedule.step .tick) := by
  have inside : schedule.ticks % 60 < 60 := Nat.mod_lt _ (by decide)
  have bucket := represents.buckets _ inside
  have set : ∀ waiting ∈ schedule.waitingAt (schedule.ticks % 60),
      waiting.callback.isSome = true := by
    intro waiting member
    obtain ⟨entry, -, here⟩ := List.mem_filterMap.mp member
    rw [(Countdown.waitingAt_eq_some here).2]
    rfl
  obtain ⟨wheel', done, bucket', confined, gone, world⟩ :=
    tick_spec (journaled effect) represents.curSlot (by omega) (by unfold N; omega) bucket set
      (Nat.le_trans (List.length_filterMap_le _ _) enough)
  obtain ⟨world', fired⟩ := fire_waitingAt effect inside represents.positive wheel.world
  have recorded : wheel'.world = { wheel.world with
      world := world'
      calls := wheel.world.calls ++
        schedule.entries.filterMap (Countdown.call wheel.world.ticks) } := world.trans fired
  have visited := Schedule.waitingAt_tick_visited represents.positive
  refine ⟨{ wheel' with
    curSlot := ((schedule.ticks % 60 : Nat) + 1 : Int).tmod N
    world := { wheel'.world with ticks := wheel'.world.ticks + 1 } }, ?_, ?_⟩
  · unfold exec
    rw [done]
    rfl
  · have layout : Layout wheel' (schedule.step .tick).waitingAt := by
      apply represents.layout.update inside confined (fun _ member => member)
        (fun _ member => .inl member)
      · rw [visited]
        exact bucket'
      · rw [visited]
        exact gone
      · exact fun slot _ => Schedule.waitingAt_tick_elsewhere represents.positive
    have kept : Layout
        { wheel' with
          curSlot := ((schedule.ticks % 60 : Nat) + 1 : Int).tmod N
          world := { wheel'.world with ticks := wheel'.world.ticks + 1 } }
        (schedule.step .tick).waitingAt := layout.frame rfl rfl
    constructor
    · exact cursor_moved schedule.ticks
    · exact kept.buckets
    · exact kept.allocated_iff
    · exact represents.distinct.sublist (map_tick_sublist Countdown.timer (fun _ _ => rfl) _)
    · intro entry member
      obtain ⟨before, -, ticked⟩ := List.mem_filterMap.mp member
      unfold Countdown.tick at ticked
      split at ticked <;> cases ticked
      change 1 ≤ before.remaining - 1
      omega
    · simp only [recorded, represents.added, Schedule.step]
    · simp only [recorded, represents.ticks, Schedule.step]
    · simp only [recorded, represents.calls, represents.ticks, Schedule.step]

theorem exec_add (effect : γ → υ → ω → ω) (represents : Represents wheel schedule) (fuel : Nat)
    {timeout : Int} {timer : Addr} {cbFunc : γ} {userData : υ}
    (allowed : schedule.Allowed (.add timeout timer cbFunc userData)) :
    ∃ wheel', exec effect fuel wheel (.add timeout timer cbFunc userData) = .ok wheel' ∧
      Represents wheel' (schedule.step (.add timeout timer cbFunc userData)) ∧
      wheel'.world.world = wheel.world.world := by
  by_cases negative : timeout < 0
  · refine ⟨wheel, exec_add_negative effect fuel negative, ?_, rfl⟩
    simp only [Schedule.step, if_pos negative]
    exact represents
  have valid : 0 ≤ timeout := by omega
  obtain ⟨fresh, room⟩ := allowed valid
  let entry : Countdown γ υ :=
    ⟨timer, (offset timeout).toNat + 1, schedule.added, cbFunc, userData⟩
  have inFront := schedule.waitingAt_cons (schedule.added + 1) entry
  have behind : ∀ slot, slot < 60 → slot ≠ position 60 (schedule.ticks % 60) entry.remaining →
      Schedule.waitingAt
          { schedule with added := schedule.added + 1, entries := entry :: schedule.entries } slot =
        schedule.waitingAt slot := fun slot _ elsewhere =>
    schedule.waitingAt_cons_elsewhere _ elsewhere.symm
  obtain ⟨wheel', done, layout, curSlot, world⟩ :=
    represents.layout.exec_add effect fuel represents.curSlot valid room
      (represents.unallocated fresh)
      (by rw [represents.added]; exact inFront) behind
  refine ⟨wheel', done, ?_, by rw [world]⟩
  simp only [Schedule.step, if_neg negative]
  constructor
  · exact curSlot.trans represents.curSlot
  · exact layout.buckets
  · exact layout.allocated_iff
  · exact List.nodup_cons.mpr ⟨fresh, represents.distinct⟩
  · intro other member
    rcases List.mem_cons.mp member with rfl | member
    · exact Nat.le_add_left 1 _
    · exact represents.positive other member
  · simp only [world, represents.added]
  · simp only [world, represents.ticks]
  · simp only [world, represents.calls]

theorem exec_del (effect : γ → υ → ω → ω) (represents : Represents wheel schedule) (fuel : Nat)
    {timer : Addr} (live : timer ∈ schedule.addresses) :
    ∃ wheel', exec effect fuel wheel (.del (some timer)) = .ok wheel' ∧
      Represents wheel' (schedule.step (.del (some timer))) ∧
      wheel'.world.world = wheel.world.world := by
  obtain ⟨slot, within, here⟩ := Schedule.mem_addresses_iff.mp live
  obtain ⟨waiting, member, rfl⟩ := List.mem_map.mp here
  obtain ⟨left, right, split⟩ := List.append_of_mem member
  have bucket := represents.buckets slot within
  rw [split] at bucket
  obtain ⟨wheel', done, bucket', confined, gone, world⟩ :=
    delTimer_spec (by omega) (by unfold N; omega) bucket
  rw [← split] at confined
  have newHere : (schedule.step (.del (some waiting.timer))).waitingAt slot = left ++ right := by
    rw [schedule.waitingAt_del, split]
    exact filter_key_ne_middle Waiting.timer bucket.distinct
  have newElsewhere : ∀ other, other < 60 → other ≠ slot →
      (schedule.step (.del (some waiting.timer))).waitingAt other = schedule.waitingAt other := by
    intro other inside elsewhere
    rw [schedule.waitingAt_del]
    apply List.filter_eq_self.mpr
    intro entry member
    have different : entry.timer ≠ waiting.timer := fun same =>
      elsewhere (represents.layout.slot_unique inside within (same ▸ Waiting.mem_addresses member) here)
    simpa using different
  have layout : Layout wheel' (schedule.step (.del (some waiting.timer))).waitingAt := by
    apply represents.layout.update within confined (fun _ member => member)
      (fun _ member => .inl member)
    · rw [newHere]
      exact bucket'
    · intro address touched outside
      rw [newHere] at outside
      rw [split] at touched
      have deleted : address = waiting.timer := by
        simp only [Waiting.addresses_append, Waiting.addresses_cons, List.mem_append,
          List.mem_cons, not_or] at touched outside
        tauto
      rw [deleted, gone]
    · exact newElsewhere
  refine ⟨wheel', done, ?_, by rw [world]⟩
  constructor
  · rw [confined.curSlot]
    exact represents.curSlot
  · exact layout.buckets
  · exact layout.allocated_iff
  · exact represents.distinct.sublist (List.filter_sublist.map _)
  · intro entry member
    exact represents.positive entry (List.mem_of_mem_filter member)
  · rw [world, represents.added]
    rfl
  · rw [world, represents.ticks]
    rfl
  · rw [world, represents.calls]
    rfl

/-- Nothing but a tick acts on the rest of the program. -/
theorem exec_edit (effect : γ → υ → ω → ω) (represents : Represents wheel schedule) (fuel : Nat)
    {op : WheelOp γ υ} (allowed : schedule.Allowed op) (noTick : op ≠ .tick) :
    ∃ wheel', wheel.exec effect fuel op = .ok wheel' ∧ Represents wheel' (schedule.step op) ∧
      wheel'.world.world = wheel.world.world := by
  cases op with
  | add timeout timer cbFunc userData => exact represents.exec_add effect fuel allowed
  | del timer =>
      cases timer with
      | none => exact ⟨wheel, rfl, represents, rfl⟩
      | some timer => exact represents.exec_del effect fuel (allowed timer rfl)
  | tick => exact absurd rfl noTick

theorem exec (effect : γ → υ → ω → ω) (represents : Represents wheel schedule) {fuel : Nat}
    (op : WheelOp γ υ) (allowed : schedule.Allowed op)
    (enough : schedule.entries.length ≤ fuel) :
    ∃ wheel', wheel.exec effect fuel op = .ok wheel' ∧ Represents wheel' (schedule.step op) := by
  by_cases noTick : op = .tick
  · subst noTick
    exact represents.exec_tick effect enough
  · obtain ⟨wheel', done, represents', -⟩ := represents.exec_edit effect fuel allowed noTick
    exact ⟨wheel', done, represents'⟩

end Represents

theorem Schedule.length_step_le (schedule : Schedule γ υ) (op : WheelOp γ υ) :
    (schedule.step op).entries.length ≤ schedule.entries.length + 1 := by
  cases op with
  | add timeout timer cbFunc userData =>
      simp only [step]
      split <;> simp
  | del timer =>
      cases timer with
      | none => exact Nat.le_succ _
      | some timer => exact Nat.le_succ_of_le (List.length_filter_le _ _)
  | tick => exact Nat.le_succ_of_le (List.length_filterMap_le _ _)

/-- Every allowed sequence of calls runs to its end, and the wheel stores the
schedule of the timers that are then live. -/
theorem TimeWheelTimer.run_represents (effect : γ → υ → ω → ω) (world : ω)
    {ops : List (WheelOp γ υ)} (allowed : AllowedRun Schedule.Allowed Schedule.step .init ops)
    {fuel : Nat} (enough : ops.length ≤ fuel) :
    ∃ wheel, run effect fuel (TimeWheelTimer.init { world }) ops = .ok wheel ∧
      Represents wheel (ops.foldl Schedule.step .init) := by
  have bounded : AllowedRun (fun schedule op => schedule.Allowed op ∧
      schedule.entries.length + 1 ≤ fuel) Schedule.step .init ops :=
    allowed.and_bound Schedule.length_step_le
      (by rw [sum_map_one]; simpa [Schedule.init] using enough)
  apply runOps_refines ?_ (represents_init world) bounded
  intro wheel schedule op represents allowed
  exact represents.exec effect op allowed.1 (Nat.le_of_succ_le allowed.2)

/-! ## When a timer fires -/

namespace WheelOp

def isTick : WheelOp γ υ → Bool
  | .tick => true
  | _ => false

/-- Whether the call makes a timer. -/
def makesTimer : WheelOp γ υ → Bool
  | .add timeout _ _ _ => decide (0 ≤ timeout)
  | _ => false

end WheelOp

def ticksOf (ops : List (WheelOp γ υ)) : Nat := ops.countP WheelOp.isTick

def timersOf (ops : List (WheelOp γ υ)) : Nat := ops.countP WheelOp.makesTimer

namespace Schedule

theorem ticks_foldl (schedule : Schedule γ υ) (ops : List (WheelOp γ υ)) :
    (ops.foldl step schedule).ticks = schedule.ticks + ticksOf ops := by
  induction ops generalizing schedule with
  | nil => rfl
  | cons op ops ih =>
      rw [List.foldl_cons, ih]
      unfold ticksOf
      rw [List.countP_cons]
      cases op with
      | add timeout timer cbFunc userData =>
          simp only [step, WheelOp.isTick, Bool.false_eq_true, ↓reduceIte]
          split <;> simp
      | del timer => cases timer <;> simp [step, WheelOp.isTick]
      | tick =>
          simp only [step, WheelOp.isTick, ↓reduceIte]
          omega

theorem added_foldl (schedule : Schedule γ υ) (ops : List (WheelOp γ υ)) :
    (ops.foldl step schedule).added = schedule.added + timersOf ops := by
  induction ops generalizing schedule with
  | nil => rfl
  | cons op ops ih =>
      rw [List.foldl_cons, ih]
      unfold timersOf
      rw [List.countP_cons]
      cases op with
      | add timeout timer cbFunc userData =>
          simp only [step, WheelOp.makesTimer, decide_eq_true_eq]
          by_cases negative : timeout < 0
          · rw [if_pos negative, if_neg (by omega), Nat.add_zero]
          · rw [if_neg negative, if_pos (by omega)]
            simp only
            omega
      | del timer => cases timer <;> simp [step, WheelOp.makesTimer]
      | tick => simp [step, WheelOp.makesTimer]

/-- The invocations of the callback of one timer. -/
def callsOf (schedule : Schedule γ υ) (number : Nat) : List (Call γ υ) :=
  schedule.calls.filter fun call => call.number = number

/-- The timer was made, and it is not in the schedule any more. -/
structure Gone (schedule : Schedule γ υ) (number : Nat) : Prop where
  made : number < schedule.added
  absent : ∀ entry ∈ schedule.entries, entry.number ≠ number

/-- `entry` is in the schedule and shares its number and its address with no other. -/
structure Awaits (schedule : Schedule γ υ) (entry : Countdown γ υ) : Prop where
  made : entry.number < schedule.added
  positive : 1 ≤ entry.remaining
  split : ∃ left right, schedule.entries = left ++ entry :: right ∧
    ∀ other ∈ left ++ right, other.number ≠ entry.number ∧ other.timer ≠ entry.timer

variable {schedule : Schedule γ υ} {entry : Countdown γ υ} {number : Nat}

theorem mem_entries_tick {other : Countdown γ υ} {entries : List (Countdown γ υ)}
    (member : other ∈ entries.filterMap Countdown.tick) :
    ∃ before ∈ entries, ¬ before.remaining ≤ 1 ∧ before.number = other.number ∧
      before.timer = other.timer := by
  obtain ⟨before, present, ticked⟩ := List.mem_filterMap.mp member
  unfold Countdown.tick at ticked
  split at ticked <;> cases ticked
  exact ⟨before, present, ‹_›, rfl, rfl⟩

theorem mem_calls_tick {call : Call γ υ} {entries : List (Countdown γ υ)} {ticks : Nat}
    (member : call ∈ entries.filterMap (Countdown.call ticks)) :
    ∃ entry ∈ entries, entry.remaining ≤ 1 ∧ entry.number = call.number := by
  obtain ⟨entry, present, called⟩ := List.mem_filterMap.mp member
  unfold Countdown.call at called
  split at called <;> cases called
  exact ⟨entry, present, ‹_›, rfl⟩

theorem filter_call_eq_nil {entries : List (Countdown γ υ)} {ticks : Nat}
    (others : ∀ entry ∈ entries, entry.number ≠ number) :
    (entries.filterMap (Countdown.call ticks)).filter (fun call => call.number = number) = [] := by
  apply List.filter_eq_nil_iff.mpr
  intro call member
  obtain ⟨entry, present, -, same⟩ := mem_calls_tick member
  simpa [← same] using others entry present

theorem Gone.step (gone : schedule.Gone number) (op : WheelOp γ υ) :
    (schedule.step op).Gone number ∧
      (schedule.step op).callsOf number = schedule.callsOf number := by
  cases op with
  | add timeout timer cbFunc userData =>
      simp only [Schedule.step]
      split
      · exact ⟨gone, rfl⟩
      · refine ⟨⟨Nat.lt_succ_of_lt gone.made, ?_⟩, rfl⟩
        intro other member
        rcases List.mem_cons.mp member with rfl | member
        · exact Nat.ne_of_gt gone.made
        · exact gone.absent other member
  | del timer =>
      cases timer with
      | none => exact ⟨gone, rfl⟩
      | some timer =>
          refine ⟨⟨gone.made, ?_⟩, rfl⟩
          intro other member
          exact gone.absent other (List.mem_of_mem_filter member)
  | tick =>
      constructor
      · refine ⟨gone.made, ?_⟩
        intro other member
        obtain ⟨before, member, -, same, -⟩ := mem_entries_tick member
        exact same ▸ gone.absent before member
      · simp only [callsOf, Schedule.step, List.filter_append,
          filter_call_eq_nil gone.absent, List.append_nil]

theorem Gone.run (gone : schedule.Gone number) (ops : List (WheelOp γ υ)) :
    (ops.foldl Schedule.step schedule).callsOf number = schedule.callsOf number := by
  induction ops generalizing schedule with
  | nil => rfl
  | cons op ops ih =>
      obtain ⟨gone, same⟩ := gone.step op
      rw [List.foldl_cons, ih gone, same]

/-- Making a timer, and deleting another one, leave it waiting. -/
theorem Awaits.keep (awaits : schedule.Awaits entry) {op : WheelOp γ υ}
    (allowed : schedule.Allowed op) (noTick : op ≠ .tick)
    (notDeleted : op ≠ .del (some entry.timer)) :
    (schedule.step op).Awaits entry ∧
      (schedule.step op).callsOf entry.number = schedule.callsOf entry.number := by
  obtain ⟨left, right, split, others⟩ := awaits.split
  cases op with
  | add timeout timer cbFunc userData =>
      simp only [Schedule.step]
      by_cases negative : timeout < 0
      · rw [if_pos negative]
        exact ⟨awaits, rfl⟩
      · rw [if_neg negative]
        obtain ⟨fresh, -⟩ := allowed (by omega)
        refine ⟨⟨Nat.lt_succ_of_lt awaits.made, awaits.positive, _ :: left, right,
          congrArg (List.cons _) split, ?_⟩, rfl⟩
        intro other member
        rcases List.mem_cons.mp member with rfl | member
        · refine ⟨Nat.ne_of_gt awaits.made, ?_⟩
          rintro rfl
          exact fresh (List.mem_map_of_mem (by rw [split]; simp))
        · exact others other member
  | del timer =>
      cases timer with
      | none => exact ⟨awaits, rfl⟩
      | some timer =>
          have different : entry.timer ≠ timer := fun same => notDeleted (by rw [same])
          refine ⟨⟨awaits.made, awaits.positive, left.filter fun other => other.timer ≠ timer,
            right.filter fun other => other.timer ≠ timer, ?_, ?_⟩, rfl⟩
          · simp only [Schedule.step, split, List.filter_append]
            rw [List.filter_cons_of_pos (by simpa using different)]
          · intro other member
            rw [← List.filter_append] at member
            exact others other (List.mem_of_mem_filter member)
  | tick => exact absurd rfl noTick

theorem Awaits.tick (awaits : schedule.Awaits entry) (later : 2 ≤ entry.remaining) :
    (schedule.step .tick).Awaits { entry with remaining := entry.remaining - 1 } ∧
      (schedule.step .tick).callsOf entry.number = schedule.callsOf entry.number := by
  obtain ⟨left, right, split, others⟩ := awaits.split
  have notDue : ¬ entry.remaining ≤ 1 := Nat.not_le.mpr later
  constructor
  · refine ⟨awaits.made, Nat.le_sub_one_of_lt later, left.filterMap Countdown.tick,
      right.filterMap Countdown.tick, ?_, ?_⟩
    · simp only [Schedule.step, split, List.filterMap_append]
      rw [List.filterMap_cons_some (Countdown.tick_later notDue)]
    · intro other member
      rw [← List.filterMap_append] at member
      obtain ⟨before, member, -, number, timer⟩ := mem_entries_tick member
      have apart := others before member
      rw [number, timer] at apart
      exact apart
  · simp only [callsOf, Schedule.step, split, List.filterMap_append]
    rw [List.filterMap_cons_none (Countdown.call_later notDue _), ← List.filterMap_append, List.filter_append,
      filter_call_eq_nil fun other member => (others other member).1, List.append_nil]

theorem Awaits.fire (awaits : schedule.Awaits entry) (due : entry.remaining = 1) :
    (schedule.step .tick).Gone entry.number ∧
      (schedule.step .tick).callsOf entry.number = schedule.callsOf entry.number ++
        [⟨schedule.ticks, entry.number, entry.cbFunc, entry.userData⟩] := by
  obtain ⟨left, right, split, others⟩ := awaits.split
  have dueNow : entry.remaining ≤ 1 := Nat.le_of_eq due
  have quietLeft : ∀ other ∈ left, other.number ≠ entry.number := fun other member =>
    (others other (List.mem_append_left _ member)).1
  have quietRight : ∀ other ∈ right, other.number ≠ entry.number := fun other member =>
    (others other (List.mem_append_right _ member)).1
  constructor
  · refine ⟨awaits.made, ?_⟩
    intro other member
    simp only [Schedule.step, split, List.filterMap_append] at member
    rw [List.filterMap_cons_none (Countdown.tick_due dueNow), ← List.filterMap_append] at member
    obtain ⟨before, member, -, same, -⟩ := mem_entries_tick member
    exact same ▸ (others before member).1
  · simp only [callsOf, Schedule.step, split, List.filterMap_append]
    rw [List.filterMap_cons_some (Countdown.call_due dueNow _), List.filter_append,
      List.filter_append,
      filter_call_eq_nil quietLeft, List.filter_cons_of_pos (by simp),
      filter_call_eq_nil quietRight, List.nil_append]

theorem Awaits.del (awaits : schedule.Awaits entry) :
    (schedule.step (.del (some entry.timer))).Gone entry.number ∧
      (schedule.step (.del (some entry.timer))).callsOf entry.number =
        schedule.callsOf entry.number := by
  obtain ⟨left, right, split, others⟩ := awaits.split
  refine ⟨⟨awaits.made, ?_⟩, rfl⟩
  intro other member
  simp only [Schedule.step, split] at member
  obtain ⟨member, different⟩ := List.mem_filter.mp member
  rcases List.mem_append.mp member with member | member
  · exact (others other (List.mem_append_left _ member)).1
  · rcases List.mem_cons.mp member with rfl | member
    · simp at different
    · exact (others other (List.mem_append_right _ member)).1

end Schedule

/-- The numbers given so far are those below `added`. -/
structure Schedule.Numbered (schedule : Schedule γ υ) : Prop where
  entries : ∀ entry ∈ schedule.entries, entry.number < schedule.added
  calls : ∀ call ∈ schedule.calls, call.number < schedule.added

theorem Schedule.Numbered.step {schedule : Schedule γ υ} (numbered : schedule.Numbered)
    (op : WheelOp γ υ) : (schedule.step op).Numbered := by
  cases op with
  | add timeout timer cbFunc userData =>
      simp only [Schedule.step]
      split
      · exact numbered
      · constructor
        · intro entry member
          rcases List.mem_cons.mp member with rfl | member
          · exact Nat.lt_succ_self _
          · exact Nat.lt_succ_of_lt (numbered.entries entry member)
        · intro call member
          exact Nat.lt_succ_of_lt (numbered.calls call member)
  | del timer =>
      cases timer with
      | none => exact numbered
      | some timer =>
          constructor
          · intro entry member
            exact numbered.entries entry (List.mem_of_mem_filter member)
          · exact numbered.calls
  | tick =>
      constructor
      · intro entry member
        obtain ⟨before, present, -, number, -⟩ := mem_entries_tick member
        exact number ▸ numbered.entries before present
      · intro call member
        rcases List.mem_append.mp member with member | member
        · exact numbered.calls call member
        · obtain ⟨entry, present, -, same⟩ := mem_calls_tick member
          exact same ▸ numbered.entries entry present

theorem Schedule.Numbered.run {schedule : Schedule γ υ} (numbered : schedule.Numbered)
    (ops : List (WheelOp γ υ)) : (ops.foldl Schedule.step schedule).Numbered := by
  induction ops generalizing schedule with
  | nil => exact numbered
  | cons op ops ih => exact ih (numbered.step op)

theorem Schedule.Numbered.awaits {schedule : Schedule γ υ} (numbered : schedule.Numbered)
    {timeout : Int} (valid : 0 ≤ timeout) {timer : Addr} (fresh : timer ∉ schedule.addresses)
    (cbFunc : γ) (userData : υ) :
    (schedule.step (.add timeout timer cbFunc userData)).Awaits
      ⟨timer, (offset timeout).toNat + 1, schedule.added, cbFunc, userData⟩ := by
  simp only [Schedule.step, if_neg (Int.not_lt.mpr valid)]
  refine ⟨Nat.lt_succ_self _, Nat.le_add_left 1 _, [], schedule.entries, rfl, ?_⟩
  intro other member
  constructor
  · exact Nat.ne_of_lt (numbered.entries other member)
  · rintro rfl
    exact fresh (List.mem_map_of_mem member)

/-- `ops` deletes the timer at `timer` before its `remaining`-th tick. -/
def DeletedBefore (remaining : Nat) (timer : Addr) (ops : List (WheelOp γ υ)) : Prop :=
  ∃ early late, ops = early ++ .del (some timer) :: late ∧ ticksOf early < remaining

theorem ticksOf_cons_of_ne {op : WheelOp γ υ} {ops : List (WheelOp γ υ)} (noTick : op ≠ .tick) :
    ticksOf (op :: ops) = ticksOf ops := by
  unfold ticksOf
  apply List.countP_cons_of_neg
  cases op with
  | tick => exact absurd rfl noTick
  | add timeout timer cbFunc userData => simp [WheelOp.isTick]
  | del timer => simp [WheelOp.isTick]

theorem deletedBefore_cons_iff {remaining : Nat} {timer : Addr} {op : WheelOp γ υ}
    {ops : List (WheelOp γ υ)} (noTick : op ≠ .tick) (notDeleted : op ≠ .del (some timer)) :
    DeletedBefore remaining timer (op :: ops) ↔ DeletedBefore remaining timer ops := by
  constructor
  · rintro ⟨early, late, split, before⟩
    cases early with
    | nil => exact absurd (List.cons.inj split).1 notDeleted
    | cons first early =>
        obtain ⟨rfl, rest⟩ := List.cons.inj split
        rw [ticksOf_cons_of_ne noTick] at before
        exact ⟨early, late, rest, before⟩
  · rintro ⟨early, late, rfl, before⟩
    exact ⟨op :: early, late, rfl, by rwa [ticksOf_cons_of_ne noTick]⟩

theorem ticksOf_tick_cons (ops : List (WheelOp γ υ)) :
    ticksOf (.tick :: ops) = ticksOf ops + 1 := List.countP_cons_of_pos rfl

theorem deletedBefore_tick_iff {remaining : Nat} {timer : Addr} {ops : List (WheelOp γ υ)} :
    DeletedBefore (remaining + 1) timer (.tick :: ops) ↔ DeletedBefore remaining timer ops := by
  constructor
  · rintro ⟨early, late, split, before⟩
    cases early with
    | nil => cases (List.cons.inj split).1
    | cons first early =>
        obtain ⟨rfl, rest⟩ := List.cons.inj split
        rw [ticksOf_tick_cons] at before
        exact ⟨early, late, rest, by omega⟩
  · rintro ⟨early, late, rfl, before⟩
    exact ⟨.tick :: early, late, rfl, by rw [ticksOf_tick_cons]; omega⟩

/-- What a run makes of a waiting timer: unless it is deleted first, it fires in
the tick it waits for if the run gets there, and at no other time. -/
theorem Schedule.Awaits.run {schedule : Schedule γ υ} {entry : Countdown γ υ}
    (awaits : schedule.Awaits entry) {ops : List (WheelOp γ υ)}
    (allowed : AllowedRun Schedule.Allowed Schedule.step schedule ops) :
    (DeletedBefore entry.remaining entry.timer ops →
      (ops.foldl Schedule.step schedule).callsOf entry.number =
        schedule.callsOf entry.number) ∧
    (¬ DeletedBefore entry.remaining entry.timer ops →
      (ops.foldl Schedule.step schedule).callsOf entry.number =
        schedule.callsOf entry.number ++
          if entry.remaining ≤ ticksOf ops then
            [⟨schedule.ticks + entry.remaining - 1, entry.number, entry.cbFunc, entry.userData⟩]
          else []) := by
  induction ops generalizing schedule entry with
  | nil =>
      have positive := awaits.positive
      have unreached : ¬ entry.remaining ≤ ticksOf ([] : List (WheelOp γ υ)) := by
        simp only [ticksOf, List.countP_nil]
        omega
      rw [if_neg unreached, List.append_nil]
      exact ⟨fun _ => rfl, fun _ => rfl⟩
  | cons op ops ih =>
      rw [List.foldl_cons]
      by_cases noTick : op = .tick
      · subst noTick
        obtain ⟨sooner, remaining⟩ : ∃ sooner, entry.remaining = sooner + 1 :=
          ⟨entry.remaining - 1, by have positive := awaits.positive; omega⟩
        rw [ticksOf_tick_cons, remaining, deletedBefore_tick_iff]
        by_cases due : sooner = 0
        · obtain ⟨gone, fired⟩ := awaits.fire (by omega)
          rw [gone.run ops, fired, due]
          constructor
          · rintro ⟨early, late, -, before⟩
            exact absurd before (Nat.not_lt_zero _)
          · intro _
            rw [if_pos (by omega)]
            rfl
        · obtain ⟨awaits', same⟩ := awaits.tick (by omega)
          obtain ⟨deleted, kept⟩ := ih awaits' allowed.2
          simp only [remaining, Nat.add_sub_cancel, same] at deleted kept
          refine ⟨deleted, fun notDeleted => ?_⟩
          rw [kept notDeleted]
          have sameTick : schedule.ticks + 1 + sooner - 1 = schedule.ticks + (sooner + 1) - 1 := by
            omega
          simp only [Schedule.step, sameTick, Nat.add_le_add_iff_right]
      · by_cases deleted : op = .del (some entry.timer)
        · subst deleted
          obtain ⟨gone, same⟩ := awaits.del
          rw [gone.run ops, same]
          refine ⟨fun _ => rfl, fun notDeleted => ?_⟩
          exact absurd ⟨[], ops, rfl, awaits.positive⟩ notDeleted
        · obtain ⟨awaits', same⟩ := awaits.keep allowed.1 noTick deleted
          have kept := ih awaits' allowed.2
          have ticks : (schedule.step op).ticks = schedule.ticks :=
            (schedule.ticks_foldl [op]).trans (by rw [ticksOf_cons_of_ne noTick]; rfl)
          rwa [same, ticks, ← deletedBefore_cons_iff noTick deleted,
            ← ticksOf_cons_of_ne noTick] at kept

/-- `time_wheel_timer` fires on time. However the wheel was reached, a timer made
with a timeout of `k` slots is called back in the `k`-th tick from then on,
counting from zero, unless it is deleted first, and never besides. Its address
may be in use again later, so the record of calls goes by the timer's number. -/
theorem timeWheelTimer_fires_on_time (effect : γ → υ → ω → ω) (world : ω)
    (before after : List (WheelOp γ υ)) (timeout : Int) (valid : 0 ≤ timeout) (timer : Addr)
    (cbFunc : γ) (userData : υ)
    (allowed : AllowedRun Schedule.Allowed Schedule.step .init
      (before ++ .add timeout timer cbFunc userData :: after))
    (fuel : Nat) (enough : (before ++ .add timeout timer cbFunc userData :: after).length ≤ fuel) :
    ∃ wheel, run effect fuel (TimeWheelTimer.init { world })
        (before ++ .add timeout timer cbFunc userData :: after) = .ok wheel ∧
      (DeletedBefore ((max 1 (timeout / SI)).toNat + 1) timer after →
        wheel.world.calls.filter (fun call => call.number = timersOf before) = []) ∧
      (¬ DeletedBefore ((max 1 (timeout / SI)).toNat + 1) timer after →
        wheel.world.calls.filter (fun call => call.number = timersOf before) =
          if (max 1 (timeout / SI)).toNat < ticksOf after then
            [⟨ticksOf before + (max 1 (timeout / SI)).toNat, timersOf before, cbFunc, userData⟩]
          else []) := by
  obtain ⟨wheel, done, represents⟩ :=
    TimeWheelTimer.run_represents effect world allowed enough
  refine ⟨wheel, done, ?_⟩
  obtain ⟨-, allowedAdd, allowedAfter⟩ := allowedRun_append_iff.mp allowed
  have numbered : (before.foldl Schedule.step (.init : Schedule γ υ)).Numbered :=
    Schedule.Numbered.run ⟨by simp [Schedule.init], by simp [Schedule.init]⟩ before
  have ticks := (.init : Schedule γ υ).ticks_foldl before
  have added := (.init : Schedule γ υ).added_foldl before
  rw [represents.calls, List.foldl_append, List.foldl_cons]
  generalize before.foldl Schedule.step (.init : Schedule γ υ) = schedule at *
  have awaits := numbered.awaits valid (allowedAdd valid).1 cbFunc userData
  have outcome := awaits.run allowedAfter
  have noneYet : (schedule.step (.add timeout timer cbFunc userData)).callsOf schedule.added =
      [] := by
    simp only [Schedule.callsOf, Schedule.step, if_neg (Int.not_lt.mpr valid)]
    apply List.filter_eq_nil_iff.mpr
    intro call member
    simpa using Nat.ne_of_lt (numbered.calls call member)
  have sameTicks : (schedule.step (.add timeout timer cbFunc userData)).ticks = schedule.ticks := by
    simp only [Schedule.step, if_neg (Int.not_lt.mpr valid)]
  have made : schedule.added = timersOf before := by simpa [Schedule.init] using added
  have started : schedule.ticks = ticksOf before := by simpa [Schedule.init] using ticks
  have fires : schedule.ticks + ((offset timeout).toNat + 1) - 1 =
      ticksOf before + (offset timeout).toNat := by omega
  rw [noneYet, sameTicks, fires] at outcome
  simp only [List.nil_append] at outcome
  rw [← offset_eq valid, ← made]
  exact outcome

/-- Two timers that meet in a slot, one due in the tick under way after a full
turn, one deleted; the first one's address is used again. -/
def sampleWheelOps : List (WheelOp Unit Unit) :=
  [.tick, .tick, .tick, .add 2 8 () (), .tick, .del (some 8), .add 60 8 () ()] ++
    List.replicate 61 .tick

theorem timeWheelTimer_fires_on_time_sampleWheelOps :
    ∃ wheel, run (fun _ _ _ => ()) 80 (TimeWheelTimer.init { world := () })
        ([.tick, .add 1 9 () ()] ++ .add 60 7 () () :: sampleWheelOps) = .ok wheel ∧
      (DeletedBefore ((max 1 (60 / SI)).toNat + 1) 7 sampleWheelOps →
        wheel.world.calls.filter
          (fun call => call.number = timersOf [.tick, .add 1 9 () ()]) = []) ∧
      (¬ DeletedBefore ((max 1 (60 / SI)).toNat + 1) 7 sampleWheelOps →
        wheel.world.calls.filter
            (fun call => call.number = timersOf [.tick, .add 1 9 () ()]) =
          if (max 1 (60 / SI)).toNat < ticksOf sampleWheelOps then
            [⟨ticksOf [.tick, .add 1 9 () ()] + (max 1 (60 / SI)).toNat,
              timersOf [.tick, .add 1 9 () ()], (), ()⟩]
          else []) :=
  timeWheelTimer_fires_on_time (fun _ _ _ => ()) () [.tick, .add 1 9 () ()] sampleWheelOps 60
    (by decide) 7 () () (by decide) 80 (by decide)

end HPLinuxServer.Timer
