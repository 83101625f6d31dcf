import HPLinuxServer.Timer.TimeWheelTimerRuns

/-!
# Callbacks that add timers

While `tick` walks the slot at the cursor, `cur_slot` still names this slot. A
callback that calls `add_timer` puts the new timer in front of some slot, maybe of
the one that is being walked, and the walk goes on behind it.
-/

set_option autoImplicit false

namespace HPLinuxServer.Timer

open Memory Scheduling Refinement TimeWheelTimer

variable {γ υ ω : Type}

/-- A call of `add_timer` by a callback, with the address that `new` chooses and
the callback that the new timer gets. -/
structure TimerRequest (γ υ : Type) where
  timeout : Int
  timer : Addr
  cbFunc : γ
  userData : υ
  deriving DecidableEq, Repr

def TimerRequest.op (request : TimerRequest γ υ) : WheelOp γ υ :=
  .add request.timeout request.timer request.cbFunc request.userData

/-- A timer that a callback made, with its number. -/
structure Rearming (γ υ : Type) where
  number : Nat
  request : TimerRequest γ υ
  deriving DecidableEq, Repr

/-- The rest of the program, with a record of the timers that callbacks made. -/
structure RearmLog (γ υ ω : Type) where
  world : ω
  rearmed : List (Rearming γ υ) := []
  deriving DecidableEq, Repr

abbrev RearmedWheel (γ υ ω : Type) := JournaledWheel γ υ (RearmLog γ υ ω)

/-- The calls of `add_timer` that a callback makes, and what it leaves of the rest
of the program. -/
abbrev WheelScript (γ υ ω : Type) := γ → υ → ω → List (TimerRequest γ υ) × ω

namespace TimeWheelTimer

/-- A callback calls `add_timer`, and the timer that was made enters the record. -/
def rearm (wheel : RearmedWheel γ υ ω) (request : TimerRequest γ υ) :
    Except Fault (RearmedWheel γ υ ω) := do
  let number := wheel.world.added
  let wheel ← exec (fun _ _ log => log) 0 wheel request.op
  if request.timeout < 0 then
    return wheel
  else
    let log := wheel.world.world
    let log := { log with rearmed := log.rearmed ++ [⟨number, request⟩] }
    return { wheel with world := { wheel.world with world := log } }

/-- Callbacks that enter the record of calls and then add timers. -/
def rearming (script : WheelScript γ υ ω) :
    Invoke γ (Nat × υ) (Journal γ υ (RearmLog γ υ ω)) :=
  fun cbFunc userData wheel =>
    let (requests, world) := script cbFunc userData.2 wheel.world.world.world
    let journal := journaled (fun _ _ log => { log with world }) cbFunc userData wheel.world
    runOps rearm { wheel with world := journal } requests

/-- The owner's calls, where the callbacks of a tick may add timers. -/
def execRearming (script : WheelScript γ υ ω) (fuel : Nat) (wheel : RearmedWheel γ υ ω) :
    WheelOp γ υ → Except Fault (RearmedWheel γ υ ω)
  | .tick => do
      let wheel ← wheel.tick (rearming script) fuel
      return { wheel with world := { wheel.world with ticks := wheel.world.ticks + 1 } }
  | op => exec (fun _ _ log => log) fuel wheel op

end TimeWheelTimer

/-! ## The schedule during a tick -/

structure Timetable (γ υ ω : Type) where
  schedule : Schedule γ υ
  log : RearmLog γ υ ω

def Rearming.countdown (made : Rearming γ υ) : Countdown γ υ :=
  ⟨made.request.timer, delay 60 (offset made.request.timeout).toNat, made.number,
    made.request.cbFunc, made.request.userData⟩

namespace Timetable

def init (world : ω) : Timetable γ υ ω := { schedule := .init, log := { world } }

/-- During a tick, where the entries of the schedule are those that the tick has
seen to, and count from the next tick on. -/
def rearm (table : Timetable γ υ ω) (request : TimerRequest γ υ) : Timetable γ υ ω :=
  if request.timeout < 0 then table
  else
    let made : Rearming γ υ := ⟨table.schedule.added, request⟩
    { schedule := { table.schedule with
        added := table.schedule.added + 1
        entries := made.countdown :: table.schedule.entries }
      log := { table.log with rearmed := table.log.rearmed ++ [made] } }

def requests (script : WheelScript γ υ ω) (table : Timetable γ υ ω) (entry : Countdown γ υ) :
    List (TimerRequest γ υ) := (script entry.cbFunc entry.userData table.log.world).1

/-- The callback of `entry` before its calls of `add_timer`. -/
def call (script : WheelScript γ υ ω) (table : Timetable γ υ ω) (entry : Countdown γ υ) :
    Timetable γ υ ω :=
  { schedule := { table.schedule with
      calls := table.schedule.calls ++
        [⟨table.schedule.ticks, entry.number, entry.cbFunc, entry.userData⟩] }
    log := { table.log with world := (script entry.cbFunc entry.userData table.log.world).2 } }

/-- The tick sees to `entry`. -/
def visit (script : WheelScript γ υ ω) (table : Timetable γ υ ω) (entry : Countdown γ υ) :
    Timetable γ υ ω :=
  if entry.remaining ≤ 1 then
    (table.requests script entry).foldl rearm (table.call script entry)
  else
    { table with schedule := { table.schedule with
        entries := table.schedule.entries ++ [{ entry with remaining := entry.remaining - 1 }] } }

/-- Before the first entry has been seen to. -/
def started (table : Timetable γ υ ω) : Timetable γ υ ω :=
  { table with schedule := { table.schedule with entries := [] } }

def finished (table : Timetable γ υ ω) : Timetable γ υ ω :=
  { table with schedule := { table.schedule with ticks := table.schedule.ticks + 1 } }

def step (script : WheelScript γ υ ω) (table : Timetable γ υ ω) : WheelOp γ υ → Timetable γ υ ω
  | .tick => (table.schedule.entries.foldl (visit script) table.started).finished
  | op => { table with schedule := table.schedule.step op }

/-- A callback adds its timers as the owner does, at addresses that are not in use. The
timers in `pending` are still there, the one that is being called back among them. -/
def CanRearm (pending : List (Countdown γ υ)) (table : Timetable γ υ ω)
    (request : TimerRequest γ υ) : Prop :=
  Schedule.Allowed { table.schedule with entries := table.schedule.entries ++ pending } request.op

instance (pending : List (Countdown γ υ)) (table : Timetable γ υ ω)
    (request : TimerRequest γ υ) : Decidable (table.CanRearm pending request) :=
  inferInstanceAs (Decidable (Schedule.Allowed _ _))

/-- All callbacks of a tick that has still to see to `pending` may make their calls. -/
def CanVisit (script : WheelScript γ υ ω) : Timetable γ υ ω → List (Countdown γ υ) → Prop
  | _, [] => True
  | table, entry :: pending =>
      (entry.remaining ≤ 1 →
        AllowedRun (CanRearm (entry :: pending)) rearm (table.call script entry)
          (table.requests script entry)) ∧
      CanVisit script (table.visit script entry) pending

instance CanVisit.decidable (script : WheelScript γ υ ω) :
    (table : Timetable γ υ ω) → (pending : List (Countdown γ υ)) →
      Decidable (table.CanVisit script pending)
  | _, [] => inferInstanceAs (Decidable True)
  | table, entry :: pending =>
      have := CanVisit.decidable script (table.visit script entry) pending
      inferInstanceAs (Decidable ((entry.remaining ≤ 1 → _) ∧ _))

def Allowed (script : WheelScript γ υ ω) (table : Timetable γ υ ω) : WheelOp γ υ → Prop
  | .tick => table.started.CanVisit script table.schedule.entries
  | op => table.schedule.Allowed op

instance (script : WheelScript γ υ ω) (table : Timetable γ υ ω) :
    (op : WheelOp γ υ) → Decidable (table.Allowed script op)
  | .tick => inferInstanceAs (Decidable (table.started.CanVisit script table.schedule.entries))
  | .add timeout timer cbFunc userData =>
      inferInstanceAs (Decidable (table.schedule.Allowed (.add timeout timer cbFunc userData)))
  | .del timer => inferInstanceAs (Decidable (table.schedule.Allowed (.del timer)))

end Timetable

end HPLinuxServer.Timer
