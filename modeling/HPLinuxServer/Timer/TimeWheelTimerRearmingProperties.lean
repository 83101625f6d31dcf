import HPLinuxServer.Timer.TimeWheelTimerRearming

/-!
# A tick whose callbacks add timers

Half-way through a tick the wheel holds the timers that the tick has seen to, with
the new ones, by their counts from the next tick on, and the others by their counts
before the tick. The walk goes on behind the new timers and never comes to them.
-/

set_option autoImplicit false

namespace HPLinuxServer.Timer

open Memory Scheduling Refinement TimeWheelTimer

variable {γ υ ω : Type}

/-- What slot `slot` holds while the tick has still to see to `pending`. -/
def Timetable.waitingAt (table : Timetable γ υ ω) (pending : List (Countdown γ υ)) (slot : Nat) :
    List (Waiting γ (Nat × υ)) :=
  table.schedule.entries.filterMap
      (Countdown.waitingAt ((table.schedule.ticks % 60 + 1) % 60) slot) ++
    pending.filterMap (Countdown.waitingAt (table.schedule.ticks % 60) slot)

theorem Countdown.waitingAt_due {entry : Countdown γ υ} {cursor : Nat} (inside : cursor < 60)
    (last : entry.remaining = 1) : entry.waitingAt cursor cursor =
      some ⟨entry.timer, 0, some (entry.cbFunc, (entry.number, entry.userData))⟩ := by
  unfold waitingAt
  rw [last, position_one inside, if_pos rfl, laps_one]
  rfl

structure Visiting (wheel : RearmedWheel γ υ ω) (table : Timetable γ υ ω)
    (pending : List (Countdown γ υ)) : Prop where
  curSlot : wheel.curSlot = ((table.schedule.ticks % 60 : Nat) : Int)
  layout : Layout wheel (table.waitingAt pending)
  distinct : (table.schedule.addresses ++ pending.map Countdown.timer).Nodup
  positive : ∀ entry ∈ table.schedule.entries ++ pending, 1 ≤ entry.remaining
  world : wheel.world =
    { world := table.log, added := table.schedule.added, ticks := table.schedule.ticks
      calls := table.schedule.calls }

/-! ### A new timer -/

namespace Timetable

variable {table : Timetable γ υ ω} {request : TimerRequest γ υ}

theorem rearm_negative (negative : request.timeout < 0) : table.rearm request = table :=
  if_pos negative

theorem rearm_valid (valid : 0 ≤ request.timeout) :
    table.rearm request =
      { schedule := { table.schedule with
          added := table.schedule.added + 1
          entries := Rearming.countdown ⟨table.schedule.added, request⟩ :: table.schedule.entries }
        log := { table.log with
          rearmed := table.log.rearmed ++ [⟨table.schedule.added, request⟩] } } :=
  if_neg (Int.not_lt.mpr valid)

theorem ahead_of_valid (valid : 0 ≤ request.timeout) : 1 ≤ (offset request.timeout).toNat := by
  have one := one_le_offset valid
  omega

/-- By its count from the next tick on, the new timer is in the slot that `add_timer` computes
from the slot under the cursor. -/
theorem position_rearmed (valid : 0 ≤ request.timeout) (number cursor : Nat) :
    position 60 ((cursor + 1) % 60) (Rearming.countdown ⟨number, request⟩).remaining =
      position 60 cursor ((offset request.timeout).toNat + 1) :=
  position_delay (ahead_of_valid valid)

theorem waitingAt_rearm (valid : 0 ≤ request.timeout) (pending : List (Countdown γ υ)) :
    (table.rearm request).waitingAt pending
        (position 60 (table.schedule.ticks % 60) ((offset request.timeout).toNat + 1)) =
      ⟨request.timer, (laps 60 ((offset request.timeout).toNat + 1) : Nat),
          some (request.cbFunc, (table.schedule.added, request.userData))⟩ ::
        table.waitingAt pending
          (position 60 (table.schedule.ticks % 60) ((offset request.timeout).toNat + 1)) := by
  have here : (Rearming.countdown ⟨table.schedule.added, request⟩).waitingAt
        ((table.schedule.ticks % 60 + 1) % 60)
        (position 60 (table.schedule.ticks % 60) ((offset request.timeout).toNat + 1)) =
      some ⟨request.timer, (laps 60 (delay 60 (offset request.timeout).toNat) : Nat),
        some (request.cbFunc, (table.schedule.added, request.userData))⟩ :=
    if_pos (position_rearmed valid _ _)
  rw [rearm_valid valid, ← laps_delay (by decide) (ahead_of_valid valid)]
  unfold waitingAt
  dsimp only
  rw [List.filterMap_cons_some here, List.cons_append]

theorem waitingAt_rearm_elsewhere (valid : 0 ≤ request.timeout) (pending : List (Countdown γ υ))
    {slot : Nat} (elsewhere : slot ≠
      position 60 (table.schedule.ticks % 60) ((offset request.timeout).toNat + 1)) :
    (table.rearm request).waitingAt pending slot = table.waitingAt pending slot := by
  have notHere : (Rearming.countdown ⟨table.schedule.added, request⟩).waitingAt
      ((table.schedule.ticks % 60 + 1) % 60) slot = none :=
    if_neg fun here => elsewhere (here.symm.trans (position_rearmed valid _ _))
  rw [rearm_valid valid]
  unfold waitingAt
  dsimp only
  rw [List.filterMap_cons_none notHere]

end Timetable

namespace Visiting

variable {wheel : RearmedWheel γ υ ω} {table : Timetable γ υ ω} {pending : List (Countdown γ υ)}

theorem allocated_iff (visiting : Visiting wheel table pending) (address : Addr) :
    (wheel.timers address).isSome = true ↔
      address ∈ table.schedule.addresses ++ pending.map Countdown.timer := by
  rw [visiting.layout.allocated]
  simp only [Timetable.waitingAt, Waiting.addresses_append, List.mem_append, and_or_left,
    exists_or, Countdown.mem_some_slot_iff]
  rfl

theorem rearm (visiting : Visiting wheel table pending) {request : TimerRequest γ υ}
    (allowed : table.CanRearm pending request) :
    ∃ wheel', wheel.rearm request = .ok wheel' ∧ Visiting wheel' (table.rearm request) pending := by
  by_cases negative : request.timeout < 0
  · refine ⟨wheel, ?_, ?_⟩
    · unfold TimeWheelTimer.rearm TimerRequest.op
      rw [exec_add_negative _ _ negative]
      simp only [ok_bind, if_pos negative, pure_eq_ok]
    · rw [Timetable.rearm_negative negative]
      exact visiting
  have valid : 0 ≤ request.timeout := by omega
  obtain ⟨fresh, room⟩ := allowed valid
  have fresh : request.timer ∉ table.schedule.addresses ++ pending.map Countdown.timer := by
    simpa only [Schedule.addresses, List.map_append] using fresh
  have absent : wheel.timers request.timer = none := by
    rw [← Option.not_isSome_iff_eq_none, visiting.allocated_iff]
    exact fresh
  have number : wheel.world.added = table.schedule.added := by rw [visiting.world]
  obtain ⟨wheel', added, layout, curSlot, world⟩ :=
    visiting.layout.exec_add (fun _ _ log => log) 0 visiting.curSlot valid room absent
      (by rw [number]; exact Timetable.waitingAt_rearm valid pending)
      (fun _ _ elsewhere => Timetable.waitingAt_rearm_elsewhere valid pending elsewhere)
  refine ⟨{ wheel' with world := { wheel'.world with
    world := { wheel'.world.world with
      rearmed := wheel'.world.world.rearmed ++ [⟨table.schedule.added, request⟩] } } }, ?_, ?_⟩
  · unfold TimeWheelTimer.rearm TimerRequest.op
    rw [added]
    simp only [ok_bind, if_neg negative, pure_eq_ok, number]
  · rw [Timetable.rearm_valid valid] at layout ⊢
    constructor
    · exact curSlot.trans visiting.curSlot
    · exact layout.frame rfl rfl
    · exact List.nodup_cons.mpr ⟨fresh, visiting.distinct⟩
    · intro entry member
      rcases List.mem_cons.mp member with rfl | member
      · exact one_le_delay (Timetable.ahead_of_valid valid)
      · exact visiting.positive entry member
    · simp only [world, visiting.world]

/-! ### The timers that stay -/

end Visiting

namespace Timetable

variable {table : Timetable γ υ ω} {pending : List (Countdown γ υ)} {entry : Countdown γ υ}

theorem visit_later (script : WheelScript γ υ ω) (later : ¬ entry.remaining ≤ 1) :
    table.visit script entry =
      { table with schedule := { table.schedule with
          entries := table.schedule.entries ++
            [{ entry with remaining := entry.remaining - 1 }] } } := if_neg later

theorem visit_due (script : WheelScript γ υ ω) (due : entry.remaining ≤ 1) :
    table.visit script entry =
      (table.requests script entry).foldl rearm (table.call script entry) := if_pos due

theorem waitingAt_cons {slot : Nat} {waiting : Waiting γ (Nat × υ)}
    (here : entry.waitingAt (table.schedule.ticks % 60) slot = some waiting) :
    table.waitingAt (entry :: pending) slot =
      table.schedule.entries.filterMap
          (Countdown.waitingAt ((table.schedule.ticks % 60 + 1) % 60) slot) ++
        waiting :: pending.filterMap (Countdown.waitingAt (table.schedule.ticks % 60) slot) := by
  unfold waitingAt
  rw [List.filterMap_cons_some here]

theorem waitingAt_cons_elsewhere {slot : Nat}
    (elsewhere : entry.waitingAt (table.schedule.ticks % 60) slot = none) :
    table.waitingAt (entry :: pending) slot = table.waitingAt pending slot := by
  unfold waitingAt
  rw [List.filterMap_cons_none elsewhere]

theorem waitingAt_visit_later (script : WheelScript γ υ ω) (later : ¬ entry.remaining ≤ 1)
    (slot : Nat) :
    (table.visit script entry).waitingAt pending slot =
      table.schedule.entries.filterMap
          (Countdown.waitingAt ((table.schedule.ticks % 60 + 1) % 60) slot) ++
        ((entry.tick.bind
            (Countdown.waitingAt ((table.schedule.ticks % 60 + 1) % 60) slot)).toList ++
          pending.filterMap (Countdown.waitingAt (table.schedule.ticks % 60) slot)) := by
  rw [visit_later script later, Countdown.tick_later later, Option.bind_some]
  unfold waitingAt
  simp only [List.filterMap_append, List.append_assoc, List.filterMap_cons, List.filterMap_nil]
  cases Countdown.waitingAt _ _ _ <;> rfl

/-- The tick leaves a timer as it is that is neither due nor in the slot under the cursor. -/
theorem waitingAt_visit_elsewhere (script : WheelScript γ υ ω) (positive : 1 ≤ entry.remaining)
    (later : ¬ entry.remaining ≤ 1) {slot : Nat}
    (elsewhere : slot ≠ table.schedule.ticks % 60 ∨
      entry.waitingAt (table.schedule.ticks % 60) slot = none) :
    (table.visit script entry).waitingAt pending slot = table.waitingAt (entry :: pending) slot := by
  have inside : table.schedule.ticks % 60 < 60 := Nat.mod_lt _ (by decide)
  have same : entry.tick.bind
        (Countdown.waitingAt ((table.schedule.ticks % 60 + 1) % 60) slot) =
      entry.waitingAt (table.schedule.ticks % 60) slot := by
    by_cases visited : slot = table.schedule.ticks % 60
    · subst visited
      have notHere := elsewhere.resolve_left fun different => different rfl
      rw [Countdown.waitingAt_tick_visited inside positive, notHere, Option.bind_none]
    · exact Countdown.waitingAt_tick inside positive visited
  rw [waitingAt_visit_later script later, same]
  cases here : entry.waitingAt (table.schedule.ticks % 60) slot with
  | none =>
      rw [waitingAt_cons_elsewhere here]
      rfl
  | some waiting =>
      rw [waitingAt_cons here]
      rfl

theorem waitingAt_visit_visited (script : WheelScript γ υ ω) (positive : 1 ≤ entry.remaining)
    (later : ¬ entry.remaining ≤ 1) {waiting : Waiting γ (Nat × υ)}
    (here : entry.waitingAt (table.schedule.ticks % 60) (table.schedule.ticks % 60) =
      some waiting) :
    waiting.rotation > 0 ∧
      (table.visit script entry).waitingAt pending (table.schedule.ticks % 60) =
        table.schedule.entries.filterMap
            (Countdown.waitingAt ((table.schedule.ticks % 60 + 1) % 60)
              (table.schedule.ticks % 60)) ++
          { waiting with rotation := waiting.rotation - 1 } ::
            pending.filterMap
              (Countdown.waitingAt (table.schedule.ticks % 60) (table.schedule.ticks % 60)) := by
  have inside : table.schedule.ticks % 60 < 60 := Nat.mod_lt _ (by decide)
  have turns : waiting.rotation > 0 := by
    by_contra none
    exact later ((Countdown.advance_waitingAt inside positive here).mp (if_neg none))
  have advanced : waiting.advance = some { waiting with rotation := waiting.rotation - 1 } :=
    if_pos turns
  refine ⟨turns, ?_⟩
  rw [waitingAt_visit_later script later, Countdown.waitingAt_tick_visited inside positive, here,
    Option.bind_some, advanced]
  rfl

@[simp] theorem rearm_ticks (table : Timetable γ υ ω) (request : TimerRequest γ υ) :
    (table.rearm request).schedule.ticks = table.schedule.ticks := by
  unfold rearm
  split <;> rfl

theorem foldl_rearm_ticks (table : Timetable γ υ ω) (requests : List (TimerRequest γ υ)) :
    (requests.foldl rearm table).schedule.ticks = table.schedule.ticks := by
  induction requests generalizing table with
  | nil => rfl
  | cons request requests ih => rw [List.foldl_cons, ih, rearm_ticks]

@[simp] theorem visit_ticks (script : WheelScript γ υ ω) (table : Timetable γ υ ω)
    (entry : Countdown γ υ) : (table.visit script entry).schedule.ticks = table.schedule.ticks := by
  unfold visit
  split
  · rw [foldl_rearm_ticks]
    rfl
  · rfl

end Timetable

namespace Visiting

variable {wheel wheel' : RearmedWheel γ υ ω} {table : Timetable γ υ ω}
  {pending : List (Countdown γ υ)} {entry : Countdown γ υ} {script : WheelScript γ υ ω}

theorem later (visiting : Visiting wheel table (entry :: pending)) (later : ¬ entry.remaining ≤ 1)
    (curSlot : wheel'.curSlot = wheel.curSlot)
    (layout : Layout wheel' ((table.visit script entry).waitingAt pending))
    (world : wheel'.world = wheel.world) : Visiting wheel' (table.visit script entry) pending := by
  rw [Timetable.visit_later script later] at layout ⊢
  constructor
  · exact curSlot.trans visiting.curSlot
  · exact layout
  · simpa [Schedule.addresses] using visiting.distinct
  · intro other member
    rcases List.mem_append.mp member with settled | waits
    · rcases List.mem_append.mp settled with before | moved
      · exact visiting.positive other (List.mem_append_left _ before)
      · obtain rfl := List.mem_singleton.mp moved
        exact Nat.le_sub_one_of_lt (Nat.lt_of_not_le later)
    · exact visiting.positive other (List.mem_append_right _ (List.mem_cons_of_mem _ waits))
  · rw [world, visiting.world]

theorem pass (visiting : Visiting wheel table (entry :: pending)) (later : ¬ entry.remaining ≤ 1)
    (elsewhere : entry.waitingAt (table.schedule.ticks % 60) (table.schedule.ticks % 60) = none) :
    Visiting wheel (table.visit script entry) pending := by
  have positive := visiting.positive entry (List.mem_append_right _ List.mem_cons_self)
  refine visiting.later later rfl (visiting.layout.congr fun slot _ => ?_) rfl
  apply Timetable.waitingAt_visit_elsewhere script positive later
  by_cases visited : slot = table.schedule.ticks % 60
  · exact .inr (visited ▸ elsewhere)
  · exact .inl visited

theorem wait (visiting : Visiting wheel table (entry :: pending)) (later : ¬ entry.remaining ≤ 1)
    {waiting : Waiting γ (Nat × υ)}
    (here : entry.waitingAt (table.schedule.ticks % 60) (table.schedule.ticks % 60) =
      some waiting) (fuel : Nat) :
    ∃ wheel', tickLoop (rearming script) (fuel + 1) wheel (some waiting.timer) =
        tickLoop (rearming script) fuel wheel'
          (Waiting.addresses (pending.filterMap (Countdown.waitingAt (table.schedule.ticks % 60)
            (table.schedule.ticks % 60)))).head? ∧
      Visiting wheel' (table.visit script entry) pending := by
  have inside : table.schedule.ticks % 60 < 60 := Nat.mod_lt _ (by decide)
  have positive := visiting.positive entry (List.mem_append_right _ List.mem_cons_self)
  have bucket := visiting.layout.buckets _ inside
  rw [Timetable.waitingAt_cons here, ← visiting.curSlot] at bucket
  obtain ⟨turns, turned⟩ : _ ∧ (table.visit script entry).waitingAt pending _ = _ :=
    Timetable.waitingAt_visit_visited script positive later here
  obtain ⟨wheel', round, bucket', confined, world⟩ :=
    tickLoop_wait (rearming script) fuel bucket turns
  rw [visiting.curSlot] at bucket' confined
  refine ⟨wheel', round, visiting.later later confined.curSlot ?_ world⟩
  apply visiting.layout.update inside confined
  · rw [Timetable.waitingAt_cons here]
    exact fun _ member => member
  · rw [Timetable.waitingAt_cons here]
    exact fun _ member => .inl member
  · rw [turned]
    exact bucket'
  · rw [turned]
    intro address member outside
    simp only [Waiting.addresses_append, Waiting.addresses_cons] at member outside
    exact absurd member outside
  · intro slot _ elsewhere
    exact Timetable.waitingAt_visit_elsewhere script positive later (.inl elsewhere)

/-- The callback of a timer that is due; the timer itself is still in its slot. -/
theorem called (visiting : Visiting wheel table (entry :: pending)) (due : entry.remaining ≤ 1)
    (allowed : AllowedRun (Timetable.CanRearm (entry :: pending)) Timetable.rearm
      (table.call script entry) (table.requests script entry)) :
    ∃ called, rearming script entry.cbFunc (entry.number, entry.userData) wheel = .ok called ∧
      Visiting called (table.visit script entry) (entry :: pending) := by
  let begun : RearmedWheel γ υ ω := { wheel with
    world := { world := (table.call script entry).log
               added := table.schedule.added
               ticks := table.schedule.ticks
               calls := (table.call script entry).schedule.calls } }
  have start : Visiting begun (table.call script entry) (entry :: pending) :=
    ⟨visiting.curSlot, visiting.layout.frame rfl rfl, visiting.distinct, visiting.positive, rfl⟩
  have simulates : ∀ (wheel : RearmedWheel γ υ ω) (table : Timetable γ υ ω)
      (request : TimerRequest γ υ), Visiting wheel table (entry :: pending) →
      table.CanRearm (entry :: pending) request →
      ∃ next, wheel.rearm request = .ok next ∧
        Visiting next (table.rearm request) (entry :: pending) :=
    fun _ _ _ visiting allowed => visiting.rearm allowed
  obtain ⟨called, ran, rearmed⟩ := runOps_refines simulates start allowed
  rw [← Timetable.visit_due script due] at rearmed
  refine ⟨called, ?_, rearmed⟩
  unfold rearming
  rw [visiting.world]
  exact ran

theorem remove (visiting : Visiting wheel table (entry :: pending)) (last : entry.remaining = 1)
    (bucket : Bucket wheel' (table.schedule.ticks % 60 : Nat)
      (table.waitingAt pending (table.schedule.ticks % 60)))
    (confined : Confined (table.schedule.ticks % 60 : Nat)
      (Waiting.addresses (table.waitingAt (entry :: pending) (table.schedule.ticks % 60)))
      wheel wheel')
    (gone : wheel'.timers entry.timer = none) (world : wheel'.world = wheel.world) :
    Visiting wheel' table pending := by
  have inside : table.schedule.ticks % 60 < 60 := Nat.mod_lt _ (by decide)
  constructor
  · exact confined.curSlot.trans visiting.curSlot
  · apply visiting.layout.update inside confined (fun _ member => member)
      (fun _ member => .inl member) bucket
    · intro address member outside
      have removed : address = entry.timer := by
        rw [Timetable.waitingAt_cons (Countdown.waitingAt_due inside last)] at member
        unfold Timetable.waitingAt at outside
        simp only [Waiting.addresses_append, Waiting.addresses_cons, List.mem_append,
          List.mem_cons, not_or] at member outside
        tauto
      rw [removed, gone]
    · intro slot _ elsewhere
      refine (Timetable.waitingAt_cons_elsewhere (if_neg ?_)).symm
      rw [last, position_one inside]
      exact elsewhere.symm
  · exact visiting.distinct.sublist ((List.sublist_cons_self _ _).append_left _)
  · intro other member
    apply visiting.positive other
    rcases List.mem_append.mp member with settled | waits
    · exact List.mem_append_left _ settled
    · exact List.mem_append_right _ (List.mem_cons_of_mem _ waits)
  · rw [world, visiting.world]

/-- A round of the loop on a timer that is due: it is removed behind the timers that its
callback has put in front. -/
theorem fire (visiting : Visiting wheel table (entry :: pending)) (due : entry.remaining ≤ 1)
    (allowed : AllowedRun (Timetable.CanRearm (entry :: pending)) Timetable.rearm
      (table.call script entry) (table.requests script entry)) (fuel : Nat) :
    ∃ wheel', tickLoop (rearming script) (fuel + 1) wheel (some entry.timer) =
        tickLoop (rearming script) fuel wheel'
          (Waiting.addresses (pending.filterMap (Countdown.waitingAt (table.schedule.ticks % 60)
            (table.schedule.ticks % 60)))).head? ∧
      Visiting wheel' (table.visit script entry) pending := by
  have inside : table.schedule.ticks % 60 < 60 := Nat.mod_lt _ (by decide)
  have positive := visiting.positive entry (List.mem_append_right _ List.mem_cons_self)
  have last : entry.remaining = 1 := by omega
  have here := Countdown.waitingAt_due inside last
  have bucket := visiting.layout.buckets _ inside
  rw [Timetable.waitingAt_cons here, ← visiting.curSlot] at bucket
  obtain ⟨called, invoked, rearmed⟩ := visiting.called due allowed
  have sameTicks := Timetable.visit_ticks script table entry
  have curSlot := rearmed.curSlot
  have bucketCalled := rearmed.layout.buckets _ (sameTicks ▸ inside)
  rw [sameTicks] at curSlot
  rw [Timetable.waitingAt_cons (sameTicks ▸ here), ← rearmed.curSlot, sameTicks] at bucketCalled
  obtain ⟨wheel', round, bucket', confined, gone, world⟩ :=
    tickLoop_called fuel bucket (by simp) rfl invoked (by omega) (by unfold N; omega) bucketCalled
  refine ⟨wheel', round, rearmed.remove last ?_ ?_ gone world⟩
  · unfold Timetable.waitingAt
    rw [sameTicks, ← curSlot]
    exact bucket'
  · rw [Timetable.waitingAt_cons (sameTicks ▸ here), sameTicks, ← curSlot]
    exact confined

theorem tickLoop (visiting : Visiting wheel table pending) (allowed : table.CanVisit script pending)
    {fuel : Nat} (enough : pending.length ≤ fuel) :
    ∃ wheel', TimeWheelTimer.tickLoop (rearming script) fuel wheel
        (Waiting.addresses (pending.filterMap (Countdown.waitingAt (table.schedule.ticks % 60)
          (table.schedule.ticks % 60)))).head? = .ok wheel' ∧
      Visiting wheel' (pending.foldl (Timetable.visit script) table) [] := by
  induction pending generalizing wheel table fuel with
  | nil =>
      refine ⟨wheel, ?_, visiting⟩
      cases fuel <;> rfl
  | cons entry pending ih =>
      obtain ⟨fuel, rfl⟩ : ∃ smaller, fuel = smaller + 1 :=
        ⟨fuel - 1, by simp only [List.length_cons] at enough; omega⟩
      have enough : pending.length ≤ fuel := Nat.le_of_succ_le_succ enough
      obtain ⟨first, rest⟩ := allowed
      rw [List.foldl_cons]
      have inside : table.schedule.ticks % 60 < 60 := Nat.mod_lt _ (by decide)
      have positive := visiting.positive entry (List.mem_append_right _ List.mem_cons_self)
      by_cases due : entry.remaining ≤ 1
      · obtain ⟨next, round, visiting'⟩ := visiting.fire due (first due) fuel
        obtain ⟨wheel', finished, visited⟩ := ih visiting' rest enough
        rw [Timetable.visit_ticks] at finished
        refine ⟨wheel', ?_, visited⟩
        rw [List.filterMap_cons_some (Countdown.waitingAt_due inside (by omega))]
        exact round.trans finished
      · cases here : entry.waitingAt (table.schedule.ticks % 60) (table.schedule.ticks % 60) with
        | none =>
            obtain ⟨wheel', finished, visited⟩ :=
              ih (visiting.pass due here) rest (Nat.le_succ_of_le enough)
            rw [Timetable.visit_ticks] at finished
            rw [List.filterMap_cons_none here]
            exact ⟨wheel', finished, visited⟩
        | some waiting =>
            obtain ⟨next, round, visiting'⟩ := visiting.wait due here fuel
            obtain ⟨wheel', finished, visited⟩ := ih visiting' rest enough
            rw [Timetable.visit_ticks] at finished
            rw [List.filterMap_cons_some here]
            exact ⟨wheel', round.trans finished, visited⟩

end Visiting

/-! ## Runs -/

/-- Next to the wheel goes a schedule with the record of the timers that callbacks made. -/
structure Represented (wheel : RearmedWheel γ υ ω) (table : Timetable γ υ ω) : Prop where
  represents : Represents wheel table.schedule
  log : wheel.world.world = table.log

theorem represented_init (world : ω) :
    Represented (TimeWheelTimer.init { world := { world } } : RearmedWheel γ υ ω)
      (Timetable.init world) :=
  ⟨represents_init _, rfl⟩

namespace Represented

variable {wheel : RearmedWheel γ υ ω} {table : Timetable γ υ ω} {script : WheelScript γ υ ω}

theorem visiting (represented : Represented wheel table) :
    Visiting wheel table.started table.schedule.entries where
  curSlot := represented.represents.curSlot
  layout := represented.represents.layout
  distinct := represented.represents.distinct
  positive := represented.represents.positive
  world := by
    unfold Timetable.started
    rw [← represented.log, ← represented.represents.added, ← represented.represents.ticks,
      ← represented.represents.calls]

theorem of_visiting (visiting : Visiting wheel table []) :
    Represented
      { wheel with
        curSlot := (wheel.curSlot + 1).tmod N
        world := { wheel.world with ticks := wheel.world.ticks + 1 } }
      table.finished := by
  have cursor : (table.schedule.ticks + 1) % 60 = (table.schedule.ticks % 60 + 1) % 60 := by omega
  have layout : Layout wheel table.finished.schedule.waitingAt :=
    visiting.layout.congr fun slot _ => by
      unfold Timetable.waitingAt Schedule.waitingAt Timetable.finished
      rw [List.filterMap_nil, List.append_nil, cursor]
  have kept : Layout
      { wheel with
        curSlot := (wheel.curSlot + 1).tmod N
        world := { wheel.world with ticks := wheel.world.ticks + 1 } }
      table.finished.schedule.waitingAt := layout.frame rfl rfl
  refine ⟨⟨?_, kept.buckets, kept.allocated_iff, ?_, ?_, ?_, ?_, ?_⟩, ?_⟩
  · simp only [visiting.curSlot, cursor_moved, Timetable.finished]
  · simpa [Timetable.finished, Schedule.addresses] using visiting.distinct
  · simpa [Timetable.finished] using visiting.positive
  · simp only [visiting.world, Timetable.finished]
  · simp only [visiting.world, Timetable.finished]
  · simp only [visiting.world, Timetable.finished]
  · simp only [visiting.world, Timetable.finished]

theorem exec_tick (represented : Represented wheel table)
    (allowed : table.Allowed script .tick) {fuel : Nat}
    (enough : table.schedule.entries.length ≤ fuel) :
    ∃ wheel', wheel.execRearming script fuel .tick = .ok wheel' ∧
      Represented wheel' (table.step script .tick) := by
  have inside : table.schedule.ticks % 60 < 60 := Nat.mod_lt _ (by decide)
  have curSlot := represented.represents.curSlot
  have head := (represented.represents.buckets _ inside).head
  obtain ⟨wheel', done, visited⟩ := represented.visiting.tickLoop allowed enough
  have walked : tickLoop (rearming script) fuel wheel
      (Waiting.addresses (table.schedule.waitingAt (table.schedule.ticks % 60))).head? =
        .ok wheel' := done
  refine ⟨_, ?_, of_visiting visited⟩
  unfold execRearming tick
  rw [slot_eq (by omega) (by unfold N; omega), curSlot, head]
  simp only [ok_bind]
  rw [walked]
  rfl

theorem exec (represented : Represented wheel table) {fuel : Nat} (op : WheelOp γ υ)
    (allowed : table.Allowed script op) (enough : table.schedule.entries.length ≤ fuel) :
    ∃ wheel', wheel.execRearming script fuel op = .ok wheel' ∧
      Represented wheel' (table.step script op) := by
  cases op with
  | add timeout timer cbFunc userData =>
      obtain ⟨wheel', done, represents, log⟩ := represented.represents.exec_add
        (fun _ _ log => log) fuel allowed
      exact ⟨wheel', done, represents, log.trans represented.log⟩
  | del timer =>
      have allowed : table.schedule.Allowed (.del timer) := allowed
      obtain ⟨wheel', done, represents, log⟩ := represented.represents.exec_edit
        (fun _ _ log => log) fuel allowed (by simp)
      exact ⟨wheel', done, represents, log.trans represented.log⟩
  | tick => exact represented.exec_tick allowed enough

theorem run (represented : Represented wheel table) {ops : List (WheelOp γ υ)} {fuel : Nat}
    (allowed : AllowedRun (fun table op => table.Allowed script op ∧
      table.schedule.entries.length ≤ fuel) (Timetable.step script) table ops) :
    ∃ final, runOps (execRearming script fuel) wheel ops = .ok final ∧
      Represented final (ops.foldl (Timetable.step script) table) := by
  apply runOps_refines ?_ represented allowed
  intro wheel table op represented allowed
  exact represented.exec op allowed.1 allowed.2

end Represented

end HPLinuxServer.Timer
