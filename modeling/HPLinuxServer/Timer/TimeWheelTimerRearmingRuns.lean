import HPLinuxServer.Timer.TimeWheelTimerRearmingProperties

/-!
# When a timer fires that a callback adds

Whatever callbacks add, a timer that is in the wheel fires in the tick that its slot
and its rotation say. A new timer is on time unless its timeout is a whole number of
turns: then it lands in the list that is being walked, in front of the walk.
-/

set_option autoImplicit false

namespace HPLinuxServer.Timer

open Memory Scheduling Refinement TimeWheelTimer

variable {γ υ ω : Type}

/-! ## What a tick makes of the schedule -/

/-- `table'` is `table` after the tick has seen to `visited`, and `made` are the timers that
the callbacks have made meanwhile. -/
structure Timetable.Grown (table table' : Timetable γ υ ω) (visited : List (Countdown γ υ))
    (made : List (Rearming γ υ)) : Prop where
  ticks : table'.schedule.ticks = table.schedule.ticks
  added : table'.schedule.added = table.schedule.added + made.length
  calls : table'.schedule.calls =
    table.schedule.calls ++ visited.filterMap (Countdown.call table.schedule.ticks)
  entries : table'.schedule.entries =
    (made.map Rearming.countdown).reverse ++
      (table.schedule.entries ++ visited.filterMap Countdown.tick)
  rearmed : table'.log.rearmed = table.log.rearmed ++ made
  numbers : made.map Rearming.number = List.range' table.schedule.added made.length
  valid : ∀ timer ∈ made, 0 ≤ timer.request.timeout

namespace Timetable

variable {script : WheelScript γ υ ω} {table table' : Timetable γ υ ω} {entry : Countdown γ υ}

theorem Grown.refl (table : Timetable γ υ ω) : Grown table table [] [] where
  ticks := rfl
  added := rfl
  calls := by simp
  entries := by simp
  rearmed := by simp
  numbers := rfl
  valid := by simp

theorem Grown.trans {table'' : Timetable γ υ ω} {first second : List (Countdown γ υ)}
    {earlier later : List (Rearming γ υ)} (left : Grown table table' first earlier)
    (right : Grown table' table'' second later) :
    Grown table table'' (first ++ second) (earlier ++ later) where
  ticks := right.ticks.trans left.ticks
  added := by rw [right.added, left.added, List.length_append, Nat.add_assoc]
  calls := by
    rw [right.calls, left.calls, left.ticks, List.filterMap_append, List.append_assoc]
  entries := by
    rw [right.entries, left.entries]
    simp
  rearmed := by rw [right.rearmed, left.rearmed, List.append_assoc]
  numbers := by
    rw [List.map_append, left.numbers, right.numbers, left.added, List.length_append,
      ← List.range'_append, Nat.one_mul]
  valid timer member := by
    rcases List.mem_append.mp member with member | member
    · exact left.valid timer member
    · exact right.valid timer member

theorem rearm_grown (table : Timetable γ υ ω) (request : TimerRequest γ υ) :
    ∃ made, Grown table (table.rearm request) [] made := by
  by_cases negative : request.timeout < 0
  · rw [rearm_negative negative]
    exact ⟨[], .refl table⟩
  · rw [rearm_valid (Int.not_lt.mp negative)]
    refine ⟨[⟨table.schedule.added, request⟩], rfl, rfl, by simp, by simp, rfl, rfl, ?_⟩
    intro timer member
    obtain rfl := List.mem_singleton.mp member
    exact Int.not_lt.mp negative

theorem foldl_rearm_grown (table : Timetable γ υ ω) (requests : List (TimerRequest γ υ)) :
    ∃ made, Grown table (requests.foldl rearm table) [] made := by
  induction requests generalizing table with
  | nil => exact ⟨[], .refl table⟩
  | cons request requests ih =>
      obtain ⟨first, grown⟩ := table.rearm_grown request
      obtain ⟨others, grown'⟩ := ih (table.rearm request)
      exact ⟨first ++ others, grown.trans grown'⟩

theorem visit_grown (script : WheelScript γ υ ω) (table : Timetable γ υ ω)
    (entry : Countdown γ υ) : ∃ made, Grown table (table.visit script entry) [entry] made := by
  by_cases due : entry.remaining ≤ 1
  · have fired : Grown table (table.call script entry) [entry] [] :=
      ⟨rfl, rfl, by simp [Countdown.call_due due, call], by simp [Countdown.tick_due due, call],
        by simp [call], rfl, by simp⟩
    obtain ⟨made, grown⟩ :=
      (table.call script entry).foldl_rearm_grown (table.requests script entry)
    rw [visit_due script due]
    exact ⟨made, fired.trans grown⟩
  · rw [visit_later script due]
    exact ⟨[], rfl, rfl, by simp [Countdown.call_later due], by simp [Countdown.tick_later due],
      by simp, rfl, by simp⟩

theorem foldl_visit_grown (script : WheelScript γ υ ω) (table : Timetable γ υ ω)
    (pending : List (Countdown γ υ)) :
    ∃ made, Grown table (pending.foldl (visit script) table) pending made := by
  induction pending generalizing table with
  | nil => exact ⟨[], .refl table⟩
  | cons entry pending ih =>
      obtain ⟨first, grown⟩ := table.visit_grown script entry
      obtain ⟨others, grown'⟩ := ih (table.visit script entry)
      exact ⟨first ++ others, grown.trans grown'⟩

end Timetable

/-! ## Numbers -/

/-- Every live timer has a number of its own, which no callback so far goes by. -/
structure Schedule.Identified (schedule : Schedule γ υ) : Prop where
  numbered : schedule.Numbered
  distinct : (schedule.entries.map Countdown.number).Nodup
  uncalled : ∀ entry ∈ schedule.entries, ∀ call ∈ schedule.calls, call.number ≠ entry.number

namespace Schedule.Identified

variable {schedule : Schedule γ υ}

theorem init : (Schedule.init : Schedule γ υ).Identified :=
  ⟨⟨by simp [Schedule.init], by simp [Schedule.init]⟩, List.nodup_nil, by simp [Schedule.init]⟩

theorem edit (identified : schedule.Identified) {op : WheelOp γ υ} (noTick : op ≠ .tick) :
    (schedule.step op).Identified := by
  have numbered := identified.numbered.step op
  cases op with
  | add timeout timer cbFunc userData =>
      simp only [Schedule.step] at numbered ⊢
      split
      · exact identified
      · next valid =>
          rw [if_neg valid] at numbered
          refine ⟨numbered, ?_, ?_⟩
          · rw [List.map_cons, List.nodup_cons]
            refine ⟨?_, identified.distinct⟩
            intro member
            obtain ⟨entry, present, same⟩ := List.mem_map.mp member
            exact Nat.ne_of_lt (identified.numbered.entries entry present) same
          · intro entry member call called
            rcases List.mem_cons.mp member with rfl | member
            · exact Nat.ne_of_lt (identified.numbered.calls call called)
            · exact identified.uncalled entry member call called
  | del timer =>
      cases timer with
      | none => exact identified
      | some timer =>
          refine ⟨numbered, identified.distinct.sublist (List.filter_sublist.map _), ?_⟩
          intro entry member
          exact identified.uncalled entry (List.mem_of_mem_filter member)
  | tick => exact absurd rfl noTick

end Schedule.Identified

/-! ### A whole tick -/

namespace Timetable.Grown

variable {table visited : Timetable γ υ ω} {made : List (Rearming γ υ)}

theorem entries_finished (grown : Grown table.started visited table.schedule.entries made) :
    visited.finished.schedule.entries =
      (made.map Rearming.countdown).reverse ++ table.schedule.entries.filterMap Countdown.tick :=
  grown.entries

theorem calls_finished (grown : Grown table.started visited table.schedule.entries made) :
    visited.finished.schedule.calls = table.schedule.calls ++
      table.schedule.entries.filterMap (Countdown.call table.schedule.ticks) := grown.calls

theorem number_mem (grown : Grown table.started visited table.schedule.entries made)
    {timer : Rearming γ υ} (member : timer ∈ made) :
    table.schedule.added ≤ timer.number ∧ timer.number < visited.finished.schedule.added := by
  have inRange : timer.number ∈ made.map Rearming.number := List.mem_map_of_mem member
  rw [grown.numbers, List.mem_range'_1] at inRange
  exact ⟨inRange.1, Nat.lt_of_lt_of_eq inRange.2 grown.added.symm⟩

theorem mem_entries (grown : Grown table.started visited table.schedule.entries made)
    {entry : Countdown γ υ} (member : entry ∈ visited.finished.schedule.entries) :
    (∃ timer ∈ made, timer.countdown = entry) ∨
      ∃ before ∈ table.schedule.entries, ¬ before.remaining ≤ 1 ∧
        before.number = entry.number := by
  rw [grown.entries_finished] at member
  rcases List.mem_append.mp member with new | old
  · exact .inl (List.mem_map.mp (List.mem_reverse.mp new))
  · obtain ⟨before, present, stays, same, -⟩ := Schedule.mem_entries_tick old
    exact .inr ⟨before, present, stays, same⟩

theorem mem_calls (grown : Grown table.started visited table.schedule.entries made)
    {call : Call γ υ} (member : call ∈ visited.finished.schedule.calls) :
    call ∈ table.schedule.calls ∨
      ∃ entry ∈ table.schedule.entries, entry.remaining ≤ 1 ∧ entry.number = call.number := by
  rw [grown.calls_finished] at member
  exact (List.mem_append.mp member).imp_right Schedule.mem_calls_tick

theorem identified (grown : Grown table.started visited table.schedule.entries made)
    (identified : table.schedule.Identified) : visited.finished.schedule.Identified := by
  have more : table.schedule.added ≤ visited.finished.schedule.added :=
    Nat.le_trans (Nat.le_add_right _ _) (Nat.le_of_eq grown.added.symm)
  constructor
  · constructor
    · intro entry member
      rcases grown.mem_entries member with ⟨timer, isMade, rfl⟩ | ⟨before, present, -, same⟩
      · exact (grown.number_mem isMade).2
      · exact same ▸ Nat.lt_of_lt_of_le (identified.numbered.entries before present) more
    · intro call member
      rcases grown.mem_calls member with old | ⟨entry, present, -, same⟩
      · exact Nat.lt_of_lt_of_le (identified.numbered.calls call old) more
      · exact same ▸ Nat.lt_of_lt_of_le (identified.numbered.entries entry present) more
  · rw [grown.entries_finished, List.map_append, List.map_reverse, List.nodup_append]
    refine ⟨?_, ?_, ?_⟩
    · rw [List.nodup_reverse, List.map_map]
      have inOrder : made.map (Countdown.number ∘ Rearming.countdown) =
          List.range' table.started.schedule.added made.length := grown.numbers
      rw [inOrder]
      exact List.nodup_range'
    · exact identified.distinct.sublist (map_tick_sublist Countdown.number (fun _ _ => rfl) _)
    · intro number new other old
      rw [List.mem_reverse, List.map_map] at new
      obtain ⟨timer, isMade, rfl⟩ := List.mem_map.mp new
      obtain ⟨entry, present, rfl⟩ := List.mem_map.mp old
      obtain ⟨before, wasPresent, -, same, -⟩ := Schedule.mem_entries_tick present
      have older := identified.numbered.entries before wasPresent
      have newer := (grown.number_mem isMade).1
      change timer.number ≠ entry.number
      omega
  · intro entry member call called
    rcases grown.mem_entries member with ⟨timer, isMade, rfl⟩ | ⟨before, present, stays, same⟩
    · have newer := (grown.number_mem isMade).1
      change call.number ≠ timer.number
      rcases grown.mem_calls called with old | ⟨fired, wasPresent, -, its⟩
      · have older := identified.numbered.calls call old
        omega
      · have older := identified.numbered.entries fired wasPresent
        omega
    · rw [← same]
      rcases grown.mem_calls called with old | ⟨fired, wasPresent, due, its⟩
      · exact identified.uncalled before present call old
      · intro alike
        have equal := List.inj_on_of_nodup_map identified.distinct wasPresent present
          (its.trans alike)
        exact stays (equal ▸ due)

end Timetable.Grown

/-! ## When a timer fires -/

def Schedule.entriesOf (schedule : Schedule γ υ) (number : Nat) : List (Countdown γ υ) :=
  schedule.entries.filter fun entry => entry.number = number

theorem Schedule.Identified.entriesOf {schedule : Schedule γ υ} (identified : schedule.Identified)
    {entry : Countdown γ υ} (member : entry ∈ schedule.entries) :
    schedule.entriesOf entry.number = [entry] := by
  obtain ⟨left, right, split⟩ := List.append_of_mem member
  have distinct := identified.distinct
  rw [split, List.map_append, List.map_cons, List.nodup_middle, ← List.map_append,
    List.nodup_cons] at distinct
  have others : ∀ other ∈ left ++ right, ¬ other.number = entry.number := fun other present same =>
    distinct.1 (List.mem_map.mpr ⟨other, present, same⟩)
  have noneLeft : left.filter (fun other => other.number = entry.number) = [] :=
    List.filter_eq_nil_iff.mpr fun other present => by
      simpa using others other (List.mem_append_left _ present)
  have noneRight : right.filter (fun other => other.number = entry.number) = [] :=
    List.filter_eq_nil_iff.mpr fun other present => by
      simpa using others other (List.mem_append_right _ present)
  unfold Schedule.entriesOf
  rw [split, List.filter_append, List.filter_cons_of_pos (by simp), noneLeft, noneRight,
    List.nil_append]

theorem Schedule.Identified.callsOf {schedule : Schedule γ υ} (identified : schedule.Identified)
    {entry : Countdown γ υ} (member : entry ∈ schedule.entries) :
    schedule.callsOf entry.number = [] :=
  List.filter_eq_nil_iff.mpr fun call called => by
    simpa using identified.uncalled entry member call called

namespace Timetable

theorem Grown.entriesOf {table visited : Timetable γ υ ω} {made : List (Rearming γ υ)}
    (grown : Grown table.started visited table.schedule.entries made) {number : Nat}
    (older : number < table.schedule.added) :
    visited.finished.schedule.entriesOf number =
      (table.schedule.entriesOf number).filterMap Countdown.tick := by
  have noneNew : (made.map Rearming.countdown).reverse.filter
      (fun entry => entry.number = number) = [] := by
    apply List.filter_eq_nil_iff.mpr
    intro entry member
    obtain ⟨timer, isMade, rfl⟩ := List.mem_map.mp (List.mem_reverse.mp member)
    have newer := (grown.number_mem isMade).1
    have different : timer.countdown.number ≠ number := by
      change timer.number ≠ number
      omega
    simpa using different
  unfold Schedule.entriesOf
  rw [grown.entries_finished, List.filter_append, noneNew, List.nil_append, List.filter_filterMap,
    List.filterMap_filter]
  apply List.filterMap_congr
  intro entry _
  unfold Countdown.tick
  by_cases due : entry.remaining ≤ 1 <;> by_cases same : entry.number = number <;>
    simp [due, same, Option.filter]

theorem Grown.callsOf {table visited : Timetable γ υ ω} {made : List (Rearming γ υ)}
    (grown : Grown table.started visited table.schedule.entries made) (number : Nat) :
    visited.finished.schedule.callsOf number = table.schedule.callsOf number ++
      (table.schedule.entriesOf number).filterMap (Countdown.call table.schedule.ticks) := by
  unfold Schedule.callsOf Schedule.entriesOf
  rw [grown.calls_finished, List.filter_append, List.filter_filterMap, List.filterMap_filter]
  congr 1
  apply List.filterMap_congr
  intro entry _
  unfold Countdown.call
  by_cases due : entry.remaining ≤ 1 <;> by_cases same : entry.number = number <;>
    simp [due, same, Option.filter]

variable {script : WheelScript γ υ ω} {table : Timetable γ υ ω} {number : Nat}

theorem callsOf_ticks_of_none (older : number < table.schedule.added)
    (noEntries : table.schedule.entriesOf number = []) (later : Nat) :
    ((List.replicate later WheelOp.tick).foldl (step script) table).schedule.callsOf number =
      table.schedule.callsOf number := by
  induction later generalizing table with
  | zero => rfl
  | succ later ih =>
      obtain ⟨made, grown⟩ := table.started.foldl_visit_grown script table.schedule.entries
      have noEntries' := grown.entriesOf older
      have calls := grown.callsOf number
      have older' : number < (table.step script .tick).schedule.added :=
        Nat.lt_of_lt_of_le older
          (Nat.le_trans (Nat.le_add_right _ _) (Nat.le_of_eq grown.added.symm))
      rw [noEntries, List.filterMap_nil] at noEntries' calls
      rw [List.replicate_succ, List.foldl_cons]
      exact (ih older' noEntries').trans (calls.trans (List.append_nil _))

/-- Whatever the callbacks of these ticks add, a waiting timer fires in the tick it waits for,
if the ticks go that far, and in no other. -/
theorem callsOf_ticks {entry : Countdown γ υ} (older : number < table.schedule.added)
    (only : table.schedule.entriesOf number = [entry]) (positive : 1 ≤ entry.remaining)
    (later : Nat) :
    ((List.replicate later WheelOp.tick).foldl (step script) table).schedule.callsOf number =
      table.schedule.callsOf number ++
        if entry.remaining ≤ later then
          [⟨table.schedule.ticks + entry.remaining - 1, entry.number, entry.cbFunc,
            entry.userData⟩]
        else [] := by
  induction later generalizing table entry with
  | zero =>
      rw [if_neg (by omega), List.append_nil]
      rfl
  | succ later ih =>
      obtain ⟨made, grown⟩ := table.started.foldl_visit_grown script table.schedule.entries
      have entries := grown.entriesOf older
      have calls := grown.callsOf number
      have older' : number < (table.step script .tick).schedule.added :=
        Nat.lt_of_lt_of_le older
          (Nat.le_trans (Nat.le_add_right _ _) (Nat.le_of_eq grown.added.symm))
      have ticks : (table.step script .tick).schedule.ticks = table.schedule.ticks + 1 :=
        congrArg (· + 1) grown.ticks
      rw [only] at entries calls
      rw [List.replicate_succ, List.foldl_cons]
      by_cases due : entry.remaining ≤ 1
      · rw [List.filterMap_cons_none (Countdown.tick_due due), List.filterMap_nil] at entries
        rw [List.filterMap_cons_some (Countdown.call_due due _), List.filterMap_nil] at calls
        have now : table.schedule.ticks + entry.remaining - 1 = table.schedule.ticks := by omega
        rw [if_pos (by omega), now]
        exact (callsOf_ticks_of_none older' entries later).trans calls
      · rw [List.filterMap_cons_some (Countdown.tick_later due), List.filterMap_nil] at entries
        rw [List.filterMap_cons_none (Countdown.call_later due _), List.filterMap_nil,
          List.append_nil] at calls
        have sooner : 1 ≤ entry.remaining - 1 := by omega
        have same : table.schedule.ticks + 1 + (entry.remaining - 1) - 1 =
            table.schedule.ticks + entry.remaining - 1 := by omega
        have reached : entry.remaining - 1 ≤ later ↔ entry.remaining ≤ later + 1 := by omega
        have outcome := ih older' entries sooner
        simp only [ticks, same, reached] at outcome
        rw [outcome]
        exact congrArg (· ++ _) calls

theorem identified_step (identified : table.schedule.Identified) (op : WheelOp γ υ) :
    (table.step script op).schedule.Identified := by
  by_cases noTick : op = .tick
  · subst noTick
    obtain ⟨made, grown⟩ := table.started.foldl_visit_grown script table.schedule.entries
    exact grown.identified identified
  · cases op with
    | add timeout timer cbFunc userData => exact identified.edit noTick
    | del timer => exact identified.edit noTick
    | tick => exact absurd rfl noTick

theorem identified_foldl (identified : table.schedule.Identified) (ops : List (WheelOp γ υ)) :
    (ops.foldl (step script) table).schedule.Identified := by
  induction ops generalizing table with
  | nil => exact identified
  | cons op ops ih => exact ih (identified_step identified op)

end Timetable

namespace TimeWheelTimer

def firings (wheel : RearmedWheel γ υ ω) (number : Nat) : List (Call γ υ) :=
  wheel.world.calls.filter fun call => call.number = number

/-- How many ticks come before the one that calls a timer back, by its slot and its rotation. -/
def ticksAhead (wheel : RearmedWheel γ υ ω) (node : TwTimer γ (Nat × υ)) : Nat :=
  ((node.timeSlot - wheel.curSlot) % N + N * node.rotation).toNat

end TimeWheelTimer

/-- How many slots ahead the timeout of the new timer reaches. -/
def Rearming.period (made : Rearming γ υ) : Nat := (max 1 (made.request.timeout / SI)).toNat

/-- The timer was made in the tick with the number `tick`, and `later` ticks have followed: it
has fired in the one that is its period after `tick` or in the next, if they are among these,
and in no other. -/
def KeepsPeriod (tick later : Nat) (made : Rearming γ υ) (final : RearmedWheel γ υ ω) : Prop :=
  ∃ ticks, (ticks = made.period ∨ ticks = made.period + 1) ∧
    final.firings made.number =
      if ticks ≤ later then
        [⟨tick + ticks, made.number, made.request.cbFunc, made.request.userData⟩]
      else []

theorem Rearming.countdown_remaining {made : Rearming γ υ} (valid : 0 ≤ made.request.timeout) :
    made.countdown.remaining = delay 60 made.period := by
  unfold Rearming.countdown Rearming.period
  rw [offset_eq valid]

/-- The timers of the wheel are the entries of the schedule, and count the same ticks. -/
theorem Represented.entry_of_node {wheel : RearmedWheel γ υ ω} {table : Timetable γ υ ω}
    (represented : Represented wheel table) {address : Addr} {node : TwTimer γ (Nat × υ)}
    (found : wheel.timers address = some node) :
    ∃ entry ∈ table.schedule.entries,
      node.callback = some (entry.cbFunc, (entry.number, entry.userData)) ∧
      entry.remaining = wheel.ticksAhead node + 1 := by
  have represents := represented.represents
  have live := (represents.allocated address).mp (by rw [found]; rfl)
  obtain ⟨entry, member, rfl⟩ := List.mem_map.mp live
  refine ⟨entry, member, ?_⟩
  have inSlot : ⟨entry.timer, (laps 60 entry.remaining : Nat),
        some (entry.cbFunc, (entry.number, entry.userData))⟩ ∈
      table.schedule.waitingAt (position 60 (table.schedule.ticks % 60) entry.remaining) :=
    List.mem_filterMap.mpr ⟨entry, member, if_pos rfl⟩
  obtain ⟨node', found', timeSlot, rotation, callback⟩ :=
    ((represents.buckets _ (position_lt (by decide) _ _)).stored _ inSlot).found
  obtain rfl : node' = node := Option.some.inj (found'.symm.trans found)
  refine ⟨callback, ?_⟩
  have positive := represents.positive entry member
  unfold ticksAhead
  rw [timeSlot, rotation, represents.curSlot]
  dsimp only
  unfold position laps N
  omega

theorem Represented.firings_ticks {script : WheelScript γ υ ω} {wheel final : RearmedWheel γ υ ω}
    {table : Timetable γ υ ω} (represented : Represented wheel table)
    (identified : table.schedule.Identified) {entry : Countdown γ υ}
    (member : entry ∈ table.schedule.entries) {later : Nat}
    (reached : Represented final
      ((List.replicate later WheelOp.tick).foldl (Timetable.step script) table)) :
    final.firings entry.number =
      if entry.remaining ≤ later then
        [⟨wheel.world.ticks + entry.remaining - 1, entry.number, entry.cbFunc, entry.userData⟩]
      else [] := by
  have outcome : ((List.replicate later WheelOp.tick).foldl (Timetable.step script)
      table).schedule.callsOf entry.number = _ :=
    Timetable.callsOf_ticks (identified.numbered.entries entry member) (identified.entriesOf member)
      (represented.represents.positive entry member) later
  rw [identified.callsOf member, List.nil_append] at outcome
  unfold firings
  rw [reached.represents.calls, represented.represents.ticks]
  exact outcome

theorem keepsPeriod_iff {made : Rearming γ υ} {final : RearmedWheel γ υ ω} {tick later : Nat}
    (fired : final.firings made.number =
      if delay 60 made.period ≤ later then
        [⟨tick + delay 60 made.period, made.number, made.request.cbFunc, made.request.userData⟩]
      else []) :
    KeepsPeriod tick later made final ↔ ¬ 60 ∣ made.period ∨ later ≤ made.period := by
  unfold KeepsPeriod
  rw [fired]
  unfold delay
  constructor
  · rintro ⟨ticks, near, same⟩
    by_contra late
    simp only [not_or, not_not, not_le] at late
    obtain ⟨whole, longer⟩ := late
    rw [if_pos whole, if_pos (show ticks ≤ later by omega)] at same
    split at same
    · simp only [List.cons.injEq, Call.mk.injEq, and_true] at same
      omega
    · cases same
  · intro onTime
    by_cases whole : 60 ∣ made.period
    · have short := onTime.resolve_left (not_not.mpr whole)
      refine ⟨made.period + 1, .inr rfl, ?_⟩
      rw [if_pos whole, if_neg (by omega), if_neg (by omega)]
    · refine ⟨made.period, .inl rfl, ?_⟩
      rw [if_neg whole]

/-- Re-arming a time wheel from its callbacks. However the wheel was reached, a tick whose
callbacks add timers and the ticks after it leave every timer of the wheel its tick. A timer
that such a callback makes keeps its period unless this is a multiple of the sixty slots and
the ticks go beyond it. -/
theorem timeWheelTimer_rearm_iff (script : WheelScript γ υ ω) (world : ω)
    (before : List (WheelOp γ υ)) (later : Nat)
    (allowed : AllowedRun (Timetable.Allowed script) (Timetable.step script) (.init world)
      (before ++ .tick :: List.replicate later .tick)) :
    ∃ bound, ∀ fuel, bound ≤ fuel → ∃ reached ticked final,
      runOps (execRearming script fuel) (TimeWheelTimer.init { world := { world } }) before =
        .ok reached ∧
      execRearming script fuel reached .tick = .ok ticked ∧
      runOps (execRearming script fuel) ticked (List.replicate later .tick) = .ok final ∧
      (∀ address node cbFunc number userData, reached.timers address = some node →
        node.callback = some (cbFunc, (number, userData)) →
        final.firings number =
          if reached.ticksAhead node ≤ later then
            [⟨reached.world.ticks + reached.ticksAhead node, number, cbFunc, userData⟩]
          else []) ∧
      ∃ rearmed, ticked.world.world.rearmed = reached.world.world.rearmed ++ rearmed ∧
        ∀ made ∈ rearmed, KeepsPeriod reached.world.ticks later made final ↔
          ¬ 60 ∣ made.period ∨ later ≤ made.period := by
  obtain ⟨bound, enough⟩ :=
    allowed.exists_bound fun table : Timetable γ υ ω => table.schedule.entries.length
  refine ⟨bound, fun fuel large => ?_⟩
  obtain ⟨firstPart, tickPart, lastPart⟩ := allowedRun_append_iff.mp (enough fuel large)
  obtain ⟨reached, ranBefore, represented⟩ := (represented_init world).run firstPart
  have identified : (before.foldl (Timetable.step script) (.init world)).schedule.Identified :=
    Timetable.identified_foldl Schedule.Identified.init before
  generalize before.foldl (Timetable.step script) (.init world) = table at *
  obtain ⟨ticked, tickRan, represented'⟩ := represented.exec .tick tickPart.1 tickPart.2
  obtain ⟨final, ranLater, representedFinal⟩ := represented'.run lastPart
  obtain ⟨rearmed, grown⟩ := table.started.foldl_visit_grown script table.schedule.entries
  refine ⟨reached, ticked, final, ranBefore, tickRan, ranLater, ?_, rearmed, ?_, ?_⟩
  · intro address node cbFunc number userData found callback
    obtain ⟨entry, member, its, remaining⟩ := represented.entry_of_node found
    rw [its] at callback
    cases callback
    have whole : (List.replicate (later + 1) WheelOp.tick).foldl (Timetable.step script) table =
        (List.replicate later WheelOp.tick).foldl (Timetable.step script)
          (table.step script .tick) := by rw [List.replicate_succ, List.foldl_cons]
    rw [← whole] at representedFinal
    have sameTick : reached.world.ticks + (reached.ticksAhead node + 1) - 1 =
        reached.world.ticks + reached.ticksAhead node := by omega
    rw [represented.firings_ticks identified member representedFinal, remaining, sameTick]
    simp only [Nat.add_le_add_iff_right]
  · rw [represented'.log, represented.log]
    exact grown.rearmed
  · intro made isMade
    have entries : (table.step script .tick).schedule.entries =
        (rearmed.map Rearming.countdown).reverse ++
          table.schedule.entries.filterMap Countdown.tick := grown.entries_finished
    have member : made.countdown ∈ (table.step script .tick).schedule.entries := by
      rw [entries]
      exact List.mem_append_left _ (List.mem_reverse.mpr (List.mem_map_of_mem isMade))
    have identified' : (table.step script .tick).schedule.Identified :=
      Timetable.identified_step identified .tick
    have outcome := represented'.firings_ticks identified' member representedFinal
    have next : ticked.world.ticks = reached.world.ticks + 1 := by
      rw [represented'.represents.ticks, represented.represents.ticks]
      exact congrArg (· + 1) grown.ticks
    have remaining := Rearming.countdown_remaining (grown.valid made isMade)
    have sameTick : reached.world.ticks + 1 + delay 60 made.period - 1 =
        reached.world.ticks + delay 60 made.period := by omega
    rw [remaining, next, sameTick] at outcome
    exact keepsPeriod_iff outcome

/-- A callback that adds a timer one turn ahead and another one two slots ahead, both with
a callback that adds none. -/
def sampleWheelScript : WheelScript Bool Unit Unit
  | true, _, _ => ([⟨60, 20, false, ()⟩, ⟨2, 21, false, ()⟩], ())
  | false, _, _ => ([], ())

theorem timeWheelTimer_rearm_iff_sampleWheelScript :
    ∃ bound, ∀ fuel, bound ≤ fuel → ∃ reached ticked final,
      runOps (execRearming sampleWheelScript fuel) (TimeWheelTimer.init { world := { world := () } })
        [.add 1 1 true (), .add 3 2 false (), .tick] = .ok reached ∧
      execRearming sampleWheelScript fuel reached .tick = .ok ticked ∧
      runOps (execRearming sampleWheelScript fuel) ticked (List.replicate 4 .tick) = .ok final ∧
      (∀ address node cbFunc number userData, reached.timers address = some node →
        node.callback = some (cbFunc, (number, userData)) →
        final.firings number =
          if reached.ticksAhead node ≤ 4 then
            [⟨reached.world.ticks + reached.ticksAhead node, number, cbFunc, userData⟩]
          else []) ∧
      ∃ rearmed, ticked.world.world.rearmed = reached.world.world.rearmed ++ rearmed ∧
        ∀ made ∈ rearmed, KeepsPeriod reached.world.ticks 4 made final ↔
          ¬ 60 ∣ made.period ∨ 4 ≤ made.period :=
  timeWheelTimer_rearm_iff sampleWheelScript () [.add 1 1 true (), .add 3 2 false (), .tick] 4
    (by decide)

/-- A callback adds a timer sixty slots ahead, which lands in front of the list that is being
walked: sixty-one ticks later it has not fired. -/
theorem timeWheelTimer_rearm_misses :
    ∃ ticked final,
      runOps (execRearming sampleWheelScript 3) (TimeWheelTimer.init { world := { world := () } })
        [.add 1 1 true (), .tick, .tick] = .ok ticked ∧
      ticked.world.world.rearmed =
        [⟨1, ⟨60, 20, false, ()⟩⟩, ⟨2, ⟨2, 21, false, ()⟩⟩] ∧
      runOps (execRearming sampleWheelScript 3) ticked (List.replicate 61 .tick) = .ok final ∧
      ¬ KeepsPeriod 1 61 ⟨1, ⟨60, 20, false, ()⟩⟩ final := by
  have allowed : AllowedRun (fun table op => Timetable.Allowed sampleWheelScript table op ∧
      table.schedule.entries.length ≤ 3) (Timetable.step sampleWheelScript) (.init ())
      ([.add 1 1 true (), .tick, .tick] ++ List.replicate 61 .tick) := by decide +kernel
  obtain ⟨allowedFirst, allowedLater⟩ := allowedRun_append_iff.mp allowed
  obtain ⟨ticked, ran, represented⟩ := (represented_init ()).run allowedFirst
  obtain ⟨final, ranLater, reached⟩ := represented.run allowedLater
  refine ⟨ticked, final, ran, ?_, ranLater, ?_⟩
  · rw [represented.log]
    decide +kernel
  · have noFirings : final.firings 1 = [] := by
      unfold firings
      rw [reached.represents.calls]
      decide +kernel
    rintro ⟨ticks, near, fired⟩
    have period : Rearming.period (⟨1, ⟨60, 20, false, ()⟩⟩ : Rearming Bool Unit) = 60 := by decide
    rw [period] at near
    rw [noFirings, if_pos (by omega)] at fired
    cases fired

end HPLinuxServer.Timer
