import HPLinuxServer.Timer.SortTimerLstTicks
import HPLinuxServer.Timer.TimeWheelTimerRuns

/-!
# The wheel and the sorted list

One owner's calls to a `time_wheel_timer` and to a `sort_timer_lst`, which is told
the number of ticks so far as the time. The wheel counts `timeout` slots from the one
behind its cursor, so it runs every callback one tick later than the list.
-/

set_option autoImplicit false

namespace HPLinuxServer.Timer

open Memory Scheduling Refinement Agenda

variable {γ υ ω : Type}

/-- A call that both kinds of timer offer. -/
inductive TimerOp (γ υ : Type) where
  | add (timeout : Nat) (timer : Addr) (cbFunc : γ) (userData : υ)
  | del (timer : Addr)
  | tick
  deriving DecidableEq, Repr

namespace TimerOp

def onWheel : TimerOp γ υ → WheelOp γ υ
  | .add timeout timer cbFunc userData => .add timeout timer cbFunc userData
  | .del timer => .del (some timer)
  | .tick => .tick

/-- The same call to a list at the time `ticks`, the `added`-th timer being the next one. -/
def onList (ticks added : Nat) : TimerOp γ υ → ListOp γ (Nat × υ)
  | .add timeout timer cbFunc userData =>
      .add ⟨timer, (ticks + timeout : Nat), cbFunc, (added, userData)⟩
  | .del timer => .del timer
  | .tick => .tick (ticks + 1 : Nat)

def added : TimerOp γ υ → Nat
  | .add _ _ _ _ => 1
  | _ => 0

def ticks : TimerOp γ υ → Nat
  | .tick => 1
  | _ => 0

end TimerOp

abbrev JournaledList (γ υ ω : Type) := SortTimerLst γ (Nat × υ) (Journal γ υ ω)

def TimeWheelTimer.runTimed (effect : γ → υ → ω → ω) (fuel : Nat) (wheel : JournaledWheel γ υ ω)
    (ops : List (TimerOp γ υ)) : Except Fault (JournaledWheel γ υ ω) :=
  runOps (fun wheel op => wheel.exec effect fuel op.onWheel) wheel ops

namespace SortTimerLst

/-- The call, and what the owner notes of it: the timers made and the ticks. -/
def execTimed (effect : γ → υ → ω → ω) (fuel : Nat) (list : JournaledList γ υ ω)
    (op : TimerOp γ υ) : Except Fault (JournaledList γ υ ω) := do
  let list ← list.exec (quiet (journaled effect)) fuel
    (op.onList list.world.ticks list.world.added)
  return { list with world := { list.world with
    added := list.world.added + op.added
    ticks := list.world.ticks + op.ticks } }

def runTimed (effect : γ → υ → ω → ω) (fuel : Nat) (list : JournaledList γ υ ω)
    (ops : List (TimerOp γ υ)) : Except Fault (JournaledList γ υ ω) :=
  runOps (execTimed effect fuel) list ops

end SortTimerLst

/-! ## The two side by side -/

/-- What is left of the two: the timers of the wheel, those of the list, the callbacks the
list has run in ticks before the last one, and the timers of which it ran them in the last
one. -/
structure Twins (γ υ : Type) where
  schedule : Schedule γ υ := {}
  agenda : Agenda γ (Nat × υ) := []
  calls : List (Call γ υ) := []
  last : Agenda γ (Nat × υ) := []

/-- The callback of a timer in the list, run in the tick `ticks`. -/
def Entry.callIn (ticks : Nat) (entry : Entry γ (Nat × υ)) : Call γ υ :=
  ⟨ticks, entry.userData.1, entry.cbFunc, entry.userData.2⟩

/-- A timer in the list as it stands in the wheel. -/
def Entry.countdown (remaining : Nat) (entry : Entry γ (Nat × υ)) : Countdown γ υ :=
  ⟨entry.timer, remaining, entry.userData.1, entry.cbFunc, entry.userData.2⟩

/-- In how many ticks the wheel runs the callback of a timer that is still in the list. -/
def Entry.remaining (ticks : Nat) (entry : Entry γ (Nat × υ)) : Nat :=
  (max 2 (entry.expire + 1 - ticks)).toNat

def Entry.counted (ticks : Nat) (entry : Entry γ (Nat × υ)) : Countdown γ υ :=
  entry.countdown (entry.remaining ticks)

def Call.later (call : Call γ υ) : Call γ υ := { call with tick := call.tick + 1 }

namespace Twins

def step (twins : Twins γ υ) (op : TimerOp γ υ) : Twins γ υ :=
  let ticks := twins.schedule.ticks
  let next := { twins with
    schedule := twins.schedule.step op.onWheel
    agenda := twins.agenda.step (op.onList ticks twins.schedule.added) }
  match op with
  | .tick => { next with
      calls := twins.calls ++ twins.last.map (Entry.callIn (ticks - 1))
      last := due Entry.expire (ticks + 1 : Nat) twins.agenda }
  | _ => next

/-- A timer is made at an address in use by neither, and for a slot number that fits an
`int`; a timer is deleted only while it is in both. -/
def Allowed (twins : Twins γ υ) : TimerOp γ υ → Prop
  | .add timeout timer cbFunc userData =>
      twins.schedule.Allowed (.add timeout timer cbFunc userData)
  | .del timer => timer ∈ addresses twins.agenda
  | .tick => True

instance (twins : Twins γ υ) : (op : TimerOp γ υ) → Decidable (twins.Allowed op)
  | .add timeout timer cbFunc userData =>
      inferInstanceAs (Decidable (twins.schedule.Allowed (.add timeout timer cbFunc userData)))
  | .del timer => inferInstanceAs (Decidable (timer ∈ addresses twins.agenda))
  | .tick => inferInstanceAs (Decidable True)

/-- The wheel holds the timers of the list and those that the list ran last, and it has run
what the list had run before. -/
structure Agree (twins : Twins γ υ) : Prop where
  entries : twins.schedule.entries.Perm
    (twins.agenda.map (Entry.counted twins.schedule.ticks) ++
      twins.last.map (Entry.countdown 1))
  calls : twins.schedule.calls.Perm (twins.calls.map Call.later)
  distinct : twins.schedule.addresses.Nodup
  earlier : ∀ call ∈ twins.calls, call.tick + 1 < twins.schedule.ticks
  started : twins.last ≠ [] → 0 < twins.schedule.ticks

end Twins

/-! ### One call -/

namespace Entry

variable {ticks : Nat} {entry : Entry γ (Nat × υ)}

theorem tick_countdown_one (entry : Entry γ (Nat × υ)) : (entry.countdown 1).tick = none :=
  Countdown.tick_due (Nat.le_refl 1)

theorem call_countdown_one (positive : 0 < ticks) (entry : Entry γ (Nat × υ)) :
    (entry.countdown 1).call ticks = some (entry.callIn (ticks - 1)).later := by
  rw [Countdown.call_due (Nat.le_refl 1), Call.later, callIn, Nat.sub_add_cancel positive]
  rfl

theorem two_le_remaining (ticks : Nat) (entry : Entry γ (Nat × υ)) :
    2 ≤ entry.remaining ticks := by
  unfold remaining
  omega

theorem call_counted (ticks : Nat) (entry : Entry γ (Nat × υ)) :
    (entry.counted ticks).call ticks = none := by
  have later := two_le_remaining ticks entry
  exact Countdown.call_later (by change ¬ entry.remaining ticks ≤ 1; omega) ticks

/-- The wheel needs one more tick for a timer that the list has just run. -/
theorem tick_counted_due (isDue : entry.expire ≤ (ticks + 1 : Nat)) :
    (entry.counted ticks).tick = some (entry.countdown 1) := by
  have remaining : entry.remaining ticks = 2 := by
    unfold Entry.remaining
    omega
  unfold counted
  rw [remaining]
  rfl

theorem tick_counted_pending (waits : (ticks + 1 : Nat) < entry.expire) :
    (entry.counted ticks).tick = some (entry.counted (ticks + 1)) := by
  have later := two_le_remaining ticks entry
  have fewer : entry.remaining ticks - 1 = entry.remaining (ticks + 1) := by
    unfold remaining
    omega
  have counts : ¬ (entry.counted ticks).remaining ≤ 1 := by
    change ¬ entry.remaining ticks ≤ 1
    omega
  rw [Countdown.tick_later counts]
  change some (entry.countdown (entry.remaining ticks - 1)) = _
  rw [fewer]
  rfl

end Entry

theorem TimeWheelTimer.offset_natCast (timeout : Nat) : offset timeout = max 1 (timeout : Int) := by
  have whole : (timeout : Int).tdiv SI = timeout := Int.tdiv_one _
  unfold offset
  rw [whole]
  split <;> omega

namespace Twins

variable {twins : Twins γ υ}

theorem Agree.add (agree : twins.Agree) {timeout : Nat} {timer : Addr} {cbFunc : γ} {userData : υ}
    (allowed : twins.Allowed (.add timeout timer cbFunc userData)) :
    (twins.step (.add timeout timer cbFunc userData)).Agree := by
  have valid : ¬ (timeout : Int) < 0 := by omega
  obtain ⟨fresh, -⟩ := allowed (Int.not_lt.mp valid)
  let entry : Entry γ (Nat × υ) :=
    ⟨timer, (twins.schedule.ticks + timeout : Nat), cbFunc, (twins.schedule.added, userData)⟩
  have made : entry.counted twins.schedule.ticks =
      ⟨timer, (TimeWheelTimer.offset timeout).toNat + 1, twins.schedule.added, cbFunc,
        userData⟩ := by
    have count : entry.remaining twins.schedule.ticks =
        (TimeWheelTimer.offset timeout).toNat + 1 := by
      rw [TimeWheelTimer.offset_natCast]
      simp only [Entry.remaining, entry]
      omega
    unfold Entry.counted
    rw [count]
    rfl
  have inserted : ((enqueue Entry.expire entry twins.agenda).map
      (Entry.counted twins.schedule.ticks)).Perm
        (entry.counted twins.schedule.ticks ::
          twins.agenda.map (Entry.counted twins.schedule.ticks)) :=
    (enqueue_perm entry twins.agenda).map _
  constructor
  · simp only [step, TimerOp.onWheel, TimerOp.onList, Schedule.step, if_neg valid, Agenda.step]
    rw [← made]
    exact (agree.entries.cons _).trans (inserted.symm.append_right _)
  · simpa only [step, TimerOp.onWheel, Schedule.step, if_neg valid] using agree.calls
  · simp only [step, TimerOp.onWheel, Schedule.step, if_neg valid]
    exact List.nodup_cons.mpr ⟨fresh, agree.distinct⟩
  · simpa only [step, TimerOp.onWheel, Schedule.step, if_neg valid] using agree.earlier
  · simpa only [step, TimerOp.onWheel, Schedule.step, if_neg valid] using agree.started

/-- The addresses in the wheel are those in the list and those of the timers it ran last. -/
theorem Agree.addresses_perm (agree : twins.Agree) :
    twins.schedule.addresses.Perm (addresses twins.agenda ++ addresses twins.last) := by
  have mapped := agree.entries.map Countdown.timer
  rw [List.map_append, List.map_map, List.map_map] at mapped
  exact mapped

theorem Agree.del (agree : twins.Agree) {timer : Addr} (live : timer ∈ addresses twins.agenda) :
    (twins.step (.del timer)).Agree := by
  have apart := (agree.addresses_perm.nodup_iff.mp agree.distinct)
  have unrelated : ∀ entry ∈ twins.last, entry.timer ≠ timer := fun entry member same =>
    List.disjoint_of_nodup_append apart live (same ▸ mem_addresses member)
  constructor
  · simp only [step, TimerOp.onWheel, TimerOp.onList, Schedule.step, Agenda.step]
    refine (agree.entries.filter _).trans ?_
    rw [List.filter_append, List.filter_map, List.filter_map]
    have kept : twins.last.filter
        ((fun entry : Countdown γ υ => decide (entry.timer ≠ timer)) ∘ Entry.countdown 1) =
          twins.last :=
      List.filter_eq_self.mpr fun entry member => decide_eq_true (unrelated entry member)
    rw [kept]
    exact List.Perm.refl _
  · exact agree.calls
  · exact agree.distinct.sublist (List.filter_sublist.map _)
  · exact agree.earlier
  · exact agree.started

/-- A tick of the wheel takes the timers that the list is about to run to their last tick. -/
theorem tick_counted (ticks : Nat) (agenda : Agenda γ (Nat × υ)) :
    ((agenda.map (Entry.counted ticks)).filterMap Countdown.tick).Perm
      ((pending Entry.expire (ticks + 1 : Nat) agenda).map (Entry.counted (ticks + 1)) ++
        (due Entry.expire (ticks + 1 : Nat) agenda).map (Entry.countdown 1)) := by
  induction agenda with
  | nil => exact List.Perm.refl _
  | cons entry agenda ih =>
      unfold pending due at ih ⊢
      by_cases waits : ((ticks + 1 : Nat) : Int) < entry.expire
      · rw [List.map_cons, List.filterMap_cons_some (Entry.tick_counted_pending waits),
          List.filter_cons_of_pos (by simpa using waits),
          List.filter_cons_of_neg (by simpa using waits), List.map_cons, List.cons_append]
        exact ih.cons _
      · have isDue := Int.not_lt.mp waits
        rw [List.map_cons, List.filterMap_cons_some (Entry.tick_counted_due isDue),
          List.filter_cons_of_neg (by simpa using waits),
          List.filter_cons_of_pos (by simpa using isDue), List.map_cons]
        exact (ih.cons _).trans List.perm_middle.symm

theorem call_counted (ticks : Nat) (agenda : Agenda γ (Nat × υ)) :
    (agenda.map (Entry.counted ticks)).filterMap (Countdown.call ticks) = [] := by
  refine List.filterMap_eq_nil_iff.mpr fun countdown member => ?_
  obtain ⟨entry, -, rfl⟩ := List.mem_map.mp member
  exact Entry.call_counted ticks entry

theorem tick_countdown_one (last : Agenda γ (Nat × υ)) :
    (last.map (Entry.countdown 1)).filterMap Countdown.tick = [] := by
  refine List.filterMap_eq_nil_iff.mpr fun countdown member => ?_
  obtain ⟨entry, -, rfl⟩ := List.mem_map.mp member
  exact Entry.tick_countdown_one entry

theorem call_countdown_one {ticks : Nat} {last : Agenda γ (Nat × υ)}
    (started : last ≠ [] → 0 < ticks) :
    (last.map (Entry.countdown 1)).filterMap (Countdown.call ticks) =
      (last.map (Entry.callIn (ticks - 1))).map Call.later := by
  cases last with
  | nil => rfl
  | cons first rest =>
      have positive := started (List.cons_ne_nil _ _)
      rw [List.filterMap_map, List.map_map, ← List.filterMap_eq_map]
      exact List.filterMap_congr fun entry _ => Entry.call_countdown_one positive entry

theorem Agree.tick (agree : twins.Agree) : (twins.step .tick).Agree := by
  constructor
  · simp only [step, TimerOp.onWheel, TimerOp.onList, Schedule.step, Agenda.step]
    refine (agree.entries.filterMap _).trans ?_
    rw [List.filterMap_append, tick_countdown_one, List.append_nil]
    exact tick_counted _ _
  · simp only [step, TimerOp.onWheel, Schedule.step, List.map_append]
    refine agree.calls.append ((agree.entries.filterMap _).trans ?_)
    rw [List.filterMap_append, call_counted, List.nil_append, call_countdown_one agree.started]
  · exact agree.distinct.sublist (map_tick_sublist Countdown.timer (fun _ _ => rfl) _)
  · intro call member
    change call.tick + 1 < twins.schedule.ticks + 1
    rcases List.mem_append.mp member with before | isLast
    · exact Nat.lt_succ_of_lt (agree.earlier call before)
    · obtain ⟨entry, ran, rfl⟩ := List.mem_map.mp isLast
      have positive := agree.started (List.ne_nil_of_mem ran)
      change twins.schedule.ticks - 1 + 1 < twins.schedule.ticks + 1
      omega
  · intro _
    exact Nat.succ_pos _

theorem Agree.step (agree : twins.Agree) (op : TimerOp γ υ) (allowed : twins.Allowed op) :
    (twins.step op).Agree := by
  cases op with
  | add timeout timer cbFunc userData => exact agree.add allowed
  | del timer => exact agree.del allowed
  | tick => exact agree.tick

theorem agree_init : ({} : Twins γ υ).Agree where
  entries := List.Perm.refl _
  calls := List.Perm.refl _
  distinct := List.nodup_nil
  earlier _ member := absurd member List.not_mem_nil
  started busy := absurd rfl busy

/-- What is allowed for both is allowed for the wheel alone. -/
theorem Agree.allowed_onWheel (agree : twins.Agree) {op : TimerOp γ υ}
    (allowed : twins.Allowed op) : twins.schedule.Allowed op.onWheel := by
  cases op with
  | add timeout timer cbFunc userData => exact allowed
  | del timer =>
      intro address here
      obtain rfl : timer = address := Option.some.inj here
      exact agree.addresses_perm.mem_iff.mpr (List.mem_append_left _ allowed)
  | tick => trivial

theorem Agree.allowed_onList (agree : twins.Agree) {op : TimerOp γ υ}
    (allowed : twins.Allowed op) :
    Agenda.Allowed twins.agenda (op.onList twins.schedule.ticks twins.schedule.added) := by
  cases op with
  | add timeout timer cbFunc userData =>
      intro member
      obtain ⟨fresh, -⟩ := allowed (Int.natCast_nonneg timeout)
      exact fresh (agree.addresses_perm.mem_iff.mpr (List.mem_append_left _ member))
  | del timer => exact allowed
  | tick => trivial

theorem Agree.length_le (agree : twins.Agree) :
    twins.agenda.length ≤ twins.schedule.entries.length := by
  rw [agree.entries.length_eq, List.length_append, List.length_map]
  exact Nat.le_add_right _ _

end Twins

/-! ## Whole runs -/

/-- The list represents its half of the two, with the callbacks in its record. -/
structure Mirrors (list : JournaledList γ υ ω) (twins : Twins γ υ) : Prop where
  formed : WellFormed list twins.agenda
  added : list.world.added = twins.schedule.added
  ticks : list.world.ticks = twins.schedule.ticks
  calls : list.world.calls =
    twins.calls ++ twins.last.map (Entry.callIn (twins.schedule.ticks - 1))

theorem mirrors_init (world : ω) :
    Mirrors (SortTimerLst.init { world } : JournaledList γ υ ω) {} where
  formed := wellFormed_init _
  added := rfl
  ticks := rfl
  calls := rfl

/-- What the callbacks of `entries` leave in the record. -/
theorem foldl_journaled (effect : γ → υ → ω → ω) (entries : Agenda γ (Nat × υ))
    (journal : Journal γ υ ω) :
    ∃ world, entries.foldl
        (fun journal entry => journaled effect entry.cbFunc entry.userData journal) journal =
      { journal with
        world
        calls := journal.calls ++ entries.map (Entry.callIn journal.ticks) } := by
  induction entries generalizing journal with
  | nil => exact ⟨journal.world, by simp⟩
  | cons entry entries ih =>
      obtain ⟨world, folded⟩ := ih (journaled effect entry.cbFunc entry.userData journal)
      refine ⟨world, ?_⟩
      rw [List.foldl_cons]
      refine folded.trans ?_
      simp [journaled, Entry.callIn]

namespace Mirrors

variable {list : JournaledList γ υ ω} {twins : Twins γ υ}

theorem execTimed_of_exec {effect : γ → υ → ω → ω} {fuel : Nat} {op : TimerOp γ υ}
    {list' : JournaledList γ υ ω} (mirrors : Mirrors list twins)
    (done : list.exec (SortTimerLst.quiet (journaled effect)) fuel
      (op.onList twins.schedule.ticks twins.schedule.added) = .ok list') :
    list.execTimed effect fuel op = .ok { list' with world := { list'.world with
      added := list'.world.added + op.added
      ticks := list'.world.ticks + op.ticks } } := by
  unfold SortTimerLst.execTimed
  rw [mirrors.ticks, mirrors.added, done]
  rfl

/-- A call that only edits the list leaves the record to the owner. -/
theorem of_edit {list' : JournaledList γ υ ω} {op : TimerOp γ υ} {twins' : Twins γ υ}
    (mirrors : Mirrors list twins) (formed : WellFormed list' twins'.agenda)
    (world : list'.world = list.world) (added : twins'.schedule.added =
      twins.schedule.added + op.added) (ticks : twins'.schedule.ticks = twins.schedule.ticks)
    (edits : op.ticks = 0) (calls : twins'.calls = twins.calls) (last : twins'.last = twins.last) :
    Mirrors { list' with world := { list'.world with
      added := list'.world.added + op.added
      ticks := list'.world.ticks + op.ticks } } twins' where
  formed := formed.withWorld _
  added := by rw [world, mirrors.added, added]
  ticks := by rw [world, mirrors.ticks, ticks, edits, Nat.add_zero]
  calls := by rw [world, mirrors.calls, calls, last, ticks]

theorem exec (effect : γ → υ → ω → ω) (mirrors : Mirrors list twins) (agree : twins.Agree)
    {fuel : Nat} {op : TimerOp γ υ} (allowed : twins.Allowed op)
    (enough : twins.agenda.length ≤ fuel) :
    ∃ list', list.execTimed effect fuel op = .ok list' ∧ Mirrors list' (twins.step op) := by
  have permitted := agree.allowed_onList allowed
  cases op with
  | add timeout timer cbFunc userData =>
      obtain ⟨list', done, formed, world⟩ := mirrors.formed.exec_add _ permitted enough
      have valid : ¬ (timeout : Int) < 0 := by omega
      refine ⟨_, mirrors.execTimed_of_exec done, mirrors.of_edit formed world ?_ ?_ rfl rfl rfl⟩
      · simp only [Twins.step, TimerOp.onWheel, Schedule.step, if_neg valid, TimerOp.added]
      · simp only [Twins.step, TimerOp.onWheel, Schedule.step, if_neg valid]
  | del timer =>
      obtain ⟨list', done, formed, world⟩ := mirrors.formed.exec_del _ fuel permitted
      exact ⟨_, mirrors.execTimed_of_exec done, mirrors.of_edit formed world rfl rfl rfl rfl rfl⟩
  | tick =>
      obtain ⟨list', done, formed, called⟩ :=
        mirrors.formed.exec_tick enough (SortTimerLst.fire_quiet (journaled effect) _ _)
      obtain ⟨world, recorded⟩ := foldl_journaled effect
        (due Entry.expire (twins.schedule.ticks + 1 : Nat) twins.agenda) list.world
      have world' : list'.world = { list.world with
          world
          calls := list.world.calls ++
            (due Entry.expire (twins.schedule.ticks + 1 : Nat) twins.agenda).map
              (Entry.callIn list.world.ticks) } := called.trans recorded
      refine ⟨_, mirrors.execTimed_of_exec done, formed.withWorld _, ?_, ?_, ?_⟩
      · rw [world']
        exact mirrors.added
      · rw [world']
        exact congrArg (· + 1) mirrors.ticks
      · rw [world', mirrors.calls, mirrors.ticks]
        rfl

end Mirrors

theorem Twins.entries_step_le (twins : Twins γ υ) (op : TimerOp γ υ) :
    (twins.step op).schedule.entries.length ≤ twins.schedule.entries.length + 1 := by
  have grown := twins.schedule.length_step_le op.onWheel
  cases op with
  | add timeout timer cbFunc userData => exact grown
  | del timer => exact grown
  | tick => exact grown

theorem Twins.schedule_step (twins : Twins γ υ) (op : TimerOp γ υ) :
    (twins.step op).schedule = twins.schedule.step op.onWheel := by
  cases op <;> rfl

/-- The callbacks in the record of the list that it ran in earlier ticks than the last one. -/
theorem Mirrors.filter_earlier {list : JournaledList γ υ ω} {twins : Twins γ υ}
    (mirrors : Mirrors list twins) (agree : twins.Agree) :
    list.world.calls.filter (fun call => call.tick + 1 < list.world.ticks) = twins.calls := by
  have before : twins.calls.filter (fun call => call.tick + 1 < twins.schedule.ticks) =
      twins.calls :=
    List.filter_eq_self.mpr fun call member => decide_eq_true (agree.earlier call member)
  have isLast : (twins.last.map (Entry.callIn (twins.schedule.ticks - 1))).filter
      (fun call => call.tick + 1 < twins.schedule.ticks) = [] := by
    refine List.filter_eq_nil_iff.mpr fun call member => ?_
    obtain ⟨entry, ran, rfl⟩ := List.mem_map.mp member
    have positive := agree.started (List.ne_nil_of_mem ran)
    intro early
    have ahead : twins.schedule.ticks - 1 + 1 < twins.schedule.ticks := of_decide_eq_true early
    omega
  rw [mirrors.calls, mirrors.ticks, List.filter_append, before, isLast, List.append_nil]

/-- Whatever calls the two are given, they run the same callbacks, and the wheel runs each
one tick later: its record is, but for the order within a tick, the one that the list had
a tick ago. -/
theorem timers_agree (effect : γ → υ → ω → ω) (world : ω) {ops : List (TimerOp γ υ)}
    (allowed : AllowedRun Twins.Allowed Twins.step {} ops) {fuel : Nat}
    (enough : ops.length ≤ fuel) :
    ∃ wheel list,
      TimeWheelTimer.runTimed effect fuel (TimeWheelTimer.init { world }) ops = .ok wheel ∧
        SortTimerLst.runTimed effect fuel (SortTimerLst.init { world }) ops = .ok list ∧
        wheel.world.ticks = list.world.ticks ∧
        wheel.world.calls.Perm ((list.world.calls.filter fun call =>
          call.tick + 1 < list.world.ticks).map Call.later) := by
  have bounded : AllowedRun (fun twins op => twins.Allowed op ∧
      twins.schedule.entries.length + 1 ≤ fuel) Twins.step {} ops :=
    allowed.and_bound Twins.entries_step_le (by rw [sum_map_one]; simpa using enough)
  have keeps : ∀ (twins : Twins γ υ) op, twins.Agree →
      (twins.Allowed op ∧ twins.schedule.entries.length + 1 ≤ fuel) → (twins.step op).Agree :=
    fun twins op agree allowed => agree.step op allowed.1
  have agreeing := bounded.and_invariant keeps Twins.agree_init
  have agree : (ops.foldl Twins.step {}).Agree :=
    throughout_iff.mp (bounded.throughout keeps Twins.agree_init) ops List.prefix_rfl
  obtain ⟨wheel, wheelDone, represents⟩ : ∃ wheel : JournaledWheel γ υ ω,
      TimeWheelTimer.runTimed effect fuel (TimeWheelTimer.init { world }) ops = .ok wheel ∧
        Represents wheel (ops.foldl Twins.step {}).schedule := by
    refine @runOps_refines _ _ _ _ _ _ _ (fun wheel twins => Represents wheel twins.schedule) ?_
      _ _ _ (represents_init world) agreeing
    intro wheel twins op represents allowed
    obtain ⟨agree, allowed, room⟩ := allowed
    rw [twins.schedule_step]
    exact represents.exec effect op.onWheel (agree.allowed_onWheel allowed) (Nat.le_of_succ_le room)
  obtain ⟨list, listDone, mirrors⟩ : ∃ list : JournaledList γ υ ω,
      SortTimerLst.runTimed effect fuel (SortTimerLst.init { world }) ops = .ok list ∧
        Mirrors list (ops.foldl Twins.step {}) := by
    refine runOps_refines ?_ (mirrors_init world) agreeing
    intro list twins op mirrors allowed
    obtain ⟨agree, allowed, room⟩ := allowed
    exact mirrors.exec effect agree allowed
      (Nat.le_trans agree.length_le (Nat.le_of_succ_le room))
  refine ⟨wheel, list, wheelDone, listDone, represents.ticks.trans mirrors.ticks.symm, ?_⟩
  rw [represents.calls, mirrors.filter_earlier agree]
  exact agree.calls

/-- Two timers for the next tick, of which one is deleted, and one for the third: the list
runs them in the ticks 0 and 2, and the wheel has run the first of them in tick 1. -/
def threeTicks : List (TimerOp Nat Unit) :=
  [.add 1 10 0 (), .add 0 11 1 (), .del 11, .add 3 11 2 (), .tick, .tick, .tick]

theorem timers_agree_threeTicks : ∃ wheel list,
    TimeWheelTimer.runTimed (fun _ _ world => world) 7 (TimeWheelTimer.init { world := () })
        threeTicks = .ok wheel ∧
      SortTimerLst.runTimed (fun _ _ world => world) 7 (SortTimerLst.init { world := () })
        threeTicks = .ok list ∧
      wheel.world.ticks = list.world.ticks ∧
      wheel.world.calls.Perm ((list.world.calls.filter fun call =>
        call.tick + 1 < list.world.ticks).map Call.later) :=
  timers_agree (fun _ _ world => world) () (by decide) (Nat.le_refl 7)

end HPLinuxServer.Timer
