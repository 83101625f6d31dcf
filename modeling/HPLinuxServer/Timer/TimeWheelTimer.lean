import HPLinuxServer.Memory.DoublyLinked
import HPLinuxServer.Memory.Int32

/-!
# Time wheel

`time_wheel_timer` of `time_wheel_timer.h`: sixty slots, each the head of a
doubly linked list of timers, and a cursor that `tick` moves on by one slot. A
timer waits in its slot for as many visits of the cursor as its rotation says.
`int` arithmetic that leaves the 32-bit range is a fault.
-/

set_option autoImplicit false

namespace HPLinuxServer.Timer

open Memory

/-- `tw_timer`, over the type `γ` of callbacks and `υ` of their arguments. The
constructor leaves the callback and its argument unset. -/
structure TwTimer (γ υ : Type) where
  rotation : Int
  timeSlot : Int
  callback : Option (γ × υ) := none
  next : Ptr := none
  prev : Ptr := none
  deriving DecidableEq, Repr

instance (γ υ : Type) : LinkedNode (TwTimer γ υ) where
  prev := TwTimer.prev
  next := TwTimer.next
  withPrev timer link := { timer with prev := link }
  withNext timer link := { timer with next := link }
  prev_withPrev _ _ := rfl
  next_withPrev _ _ := rfl
  prev_withNext _ _ := rfl
  next_withNext _ _ := rfl

@[simp] theorem TwTimer.linked_prev {γ υ : Type} (timer : TwTimer γ υ) :
    LinkedNode.prev timer = timer.prev := rfl

@[simp] theorem TwTimer.linked_next {γ υ : Type} (timer : TwTimer γ υ) :
    LinkedNode.next timer = timer.next := rfl

@[simp] theorem TwTimer.linked_withPrev {γ υ : Type} (timer : TwTimer γ υ) (link : Ptr) :
    LinkedNode.withPrev timer link = { timer with prev := link } := rfl

@[simp] theorem TwTimer.linked_withNext {γ υ : Type} (timer : TwTimer γ υ) (link : Ptr) :
    LinkedNode.withNext timer link = { timer with next := link } := rfl

/-- `time_wheel_timer` with the memory its pointers refer to, and the rest `ω` of
the program's state that callbacks act on. `slots` is read only at the indices
of the array. -/
structure TimeWheelTimer (γ υ ω : Type) where
  slots : Int → Ptr
  curSlot : Int
  timers : Heap (TwTimer γ υ)
  world : ω

namespace TimeWheelTimer

variable {γ υ ω : Type}

def N : Int := 60

def SI : Int := 1

/-- The constructor; no timer has been allocated yet. -/
def init (world : ω) : TimeWheelTimer γ υ ω :=
  { slots := fun _ => none, curSlot := 0, timers := Heap.empty, world }

/-- `slots[index]` -/
def slot (wheel : TimeWheelTimer γ υ ω) (index : Int) : Except Fault Ptr :=
  if 0 ≤ index ∧ index < N then .ok (wheel.slots index) else .error .outOfBounds

/-- `slots[index] = timer` -/
def storeSlot (wheel : TimeWheelTimer γ υ ω) (index : Int) (timer : Ptr) :
    Except Fault (TimeWheelTimer γ υ ω) :=
  if 0 ≤ index ∧ index < N then
    .ok { wheel with slots := fun other => if other = index then timer else wheel.slots other }
  else .error .outOfBounds

def load (wheel : TimeWheelTimer γ υ ω) (timer : Ptr) : Except Fault (TwTimer γ υ) :=
  wheel.timers.load timer

/-- `timer->next = link` -/
def storeNext (wheel : TimeWheelTimer γ υ ω) (timer link : Ptr) :
    Except Fault (TimeWheelTimer γ υ ω) := do
  return { wheel with timers := ← wheel.timers.store timer fun node => { node with next := link } }

/-- `timer->prev = link` -/
def storePrev (wheel : TimeWheelTimer γ υ ω) (timer link : Ptr) :
    Except Fault (TimeWheelTimer γ υ ω) := do
  return { wheel with timers := ← wheel.timers.store timer fun node => { node with prev := link } }

/-- `timer->cb_func = cbFunc; timer->user_data = userData`, by the owner of the timer -/
def storeCallback (wheel : TimeWheelTimer γ υ ω) (timer : Ptr) (cbFunc : γ) (userData : υ) :
    Except Fault (TimeWheelTimer γ υ ω) := do
  return { wheel with
    timers := ← wheel.timers.store timer fun node =>
      { node with callback := some (cbFunc, userData) } }

/-- `delete timer` -/
def delete (wheel : TimeWheelTimer γ υ ω) (timer : Ptr) : Except Fault (TimeWheelTimer γ υ ω) := do
  return { wheel with timers := ← wheel.timers.delete timer }

/-- The `offset` of `add_timer`: how many slots ahead a timeout reaches. -/
def offset (timeout : Int) : Int :=
  if timeout.tdiv SI = 0 then 1 else timeout.tdiv SI

/-- The end of `add_timer`: put the new timer in front of its slot. -/
def pushTimer (wheel : TimeWheelTimer γ υ ω) (timer : Ptr) (slotPos : Int) :
    Except Fault (TimeWheelTimer γ υ ω) := do
  if (← wheel.slot slotPos).isNone then
    wheel.storeSlot slotPos timer
  else
    let wheel ← wheel.storeNext timer (← wheel.slot slotPos)
    let wheel ← wheel.storePrev (← wheel.load timer).next timer
    wheel.storeSlot slotPos timer

/-- `add_timer`, with `new` returning `address`; the returned pointer is null
for a negative timeout. -/
def addTimer (wheel : TimeWheelTimer γ υ ω) (timeout : Int) (address : Addr) :
    Except Fault (TimeWheelTimer γ υ ω × Ptr) := do
  if timeout < 0 then
    return (wheel, none)
  else
    let rotation := (offset timeout).tdiv N
    let slotPos := (← checkInt (wheel.curSlot + offset timeout)).tmod N
    let wheel := { wheel with
      timers := wheel.timers.write address { rotation, timeSlot := slotPos } }
    return (← wheel.pushTimer (some address) slotPos, some address)

/-- Unlink a timer that has a predecessor, as `del_timer` and `tick` both do:
`timer->prev->next = timer->next`, and the way back if there is a successor. -/
def unlinkInner (wheel : TimeWheelTimer γ υ ω) (timer : Ptr) :
    Except Fault (TimeWheelTimer γ υ ω) := do
  let wheel ← wheel.storeNext (← wheel.load timer).prev (← wheel.load timer).next
  if (← wheel.load timer).next.isSome then
    wheel.storePrev (← wheel.load timer).next (← wheel.load timer).prev
  else
    return wheel

def delTimer (wheel : TimeWheelTimer γ υ ω) (timer : Ptr) :
    Except Fault (TimeWheelTimer γ υ ω) :=
  match timer with
  | none => .ok wheel
  | some _ => do
      let ts := (← wheel.load timer).timeSlot
      if timer = (← wheel.slot ts) then
        let wheel ← wheel.storeSlot ts (← wheel.load timer).next
        let wheel ←
          if (← wheel.slot ts).isSome then wheel.storePrev (← wheel.slot ts) none else pure wheel
        wheel.delete timer
      else
        let wheel ← wheel.unlinkInner timer
        wheel.delete timer

/-- What a callback does when it is called with its argument. -/
abbrev Invoke (γ υ ω : Type) :=
  γ → υ → TimeWheelTimer γ υ ω → Except Fault (TimeWheelTimer γ υ ω)

/-- Callbacks that act on the rest of the program and do not touch the wheel. -/
def quiet (effect : γ → υ → ω → ω) : Invoke γ υ ω :=
  fun cbFunc userData wheel => .ok { wheel with world := effect cbFunc userData wheel.world }

/-- `tmp->cb_func(tmp->user_data)`; calling an unset callback is a fault. -/
def callBack (invoke : Invoke γ υ ω) (wheel : TimeWheelTimer γ υ ω) (tmp : Ptr) :
    Except Fault (TimeWheelTimer γ υ ω) := do
  match (← wheel.load tmp).callback with
  | none => .error .uninitialised
  | some (cbFunc, userData) => invoke cbFunc userData wheel

/-- The loop of `tick` over the slot at the cursor, from `tmp` on. -/
def tickLoop (invoke : Invoke γ υ ω) (fuel : Nat) (wheel : TimeWheelTimer γ υ ω) (tmp : Ptr) :
    Except Fault (TimeWheelTimer γ υ ω) :=
  match tmp with
  | none => .ok wheel
  | some _ =>
      match fuel with
      | 0 => .error .outOfFuel
      | fuel + 1 => do
          if (← wheel.load tmp).rotation > 0 then
            let wheel := { wheel with
              timers := ← wheel.timers.store tmp fun node =>
                { node with rotation := node.rotation - 1 } }
            tickLoop invoke fuel wheel (← wheel.load tmp).next
          else
            let wheel ← callBack invoke wheel tmp
            if tmp = (← wheel.slot wheel.curSlot) then
              let wheel ← wheel.storeSlot wheel.curSlot (← wheel.load tmp).next
              let wheel ← wheel.delete tmp
              let wheel ←
                if (← wheel.slot wheel.curSlot).isSome then
                  wheel.storePrev (← wheel.slot wheel.curSlot) none
                else pure wheel
              tickLoop invoke fuel wheel (← wheel.slot wheel.curSlot)
            else
              let wheel ← wheel.unlinkInner tmp
              let tmp2 := (← wheel.load tmp).next
              let wheel ← wheel.delete tmp
              tickLoop invoke fuel wheel tmp2

def tick (invoke : Invoke γ υ ω) (fuel : Nat) (wheel : TimeWheelTimer γ υ ω) :
    Except Fault (TimeWheelTimer γ υ ω) := do
  let wheel ← tickLoop invoke fuel wheel (← wheel.slot wheel.curSlot)
  return { wheel with curSlot := (wheel.curSlot + 1).tmod N }

end TimeWheelTimer

end HPLinuxServer.Timer
