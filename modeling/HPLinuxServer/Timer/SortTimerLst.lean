import HPLinuxServer.Memory.DoublyLinked

/-!
# Sorted timer list

`sort_timer_lst` of `lst_timer.h`: timers in a doubly linked list ordered by
expiration time. The list lives in a heap of `util_timer` objects; every
dereference, store and deletion goes through that heap and can fail there. A
callback is an arbitrary computation on the whole state, so that callbacks that
reach back into the list are covered too. Loops take the number of iterations
they may run.
-/

set_option autoImplicit false

namespace HPLinuxServer.Timer

open Memory

/-- `util_timer`, over the type `γ` of callbacks and `υ` of their arguments. -/
structure UtilTimer (γ υ : Type) where
  expire : Int
  cbFunc : γ
  userData : υ
  prev : Ptr := none
  next : Ptr := none
  deriving DecidableEq, Repr

instance (γ υ : Type) : LinkedNode (UtilTimer γ υ) where
  prev := UtilTimer.prev
  next := UtilTimer.next
  withPrev timer link := { timer with prev := link }
  withNext timer link := { timer with next := link }
  prev_withPrev _ _ := rfl
  next_withPrev _ _ := rfl
  prev_withNext _ _ := rfl
  next_withNext _ _ := rfl

@[simp] theorem UtilTimer.linked_prev {γ υ : Type} (timer : UtilTimer γ υ) :
    LinkedNode.prev timer = timer.prev := rfl

@[simp] theorem UtilTimer.linked_next {γ υ : Type} (timer : UtilTimer γ υ) :
    LinkedNode.next timer = timer.next := rfl

@[simp] theorem UtilTimer.linked_withPrev {γ υ : Type} (timer : UtilTimer γ υ) (link : Ptr) :
    LinkedNode.withPrev timer link = { timer with prev := link } := rfl

@[simp] theorem UtilTimer.linked_withNext {γ υ : Type} (timer : UtilTimer γ υ) (link : Ptr) :
    LinkedNode.withNext timer link = { timer with next := link } := rfl

/-- `sort_timer_lst` with the memory its pointers refer to, and the rest `ω` of
the program's state that callbacks act on. -/
structure SortTimerLst (γ υ ω : Type) where
  head : Ptr
  tail : Ptr
  timers : Heap (UtilTimer γ υ)
  world : ω

namespace SortTimerLst

variable {γ υ ω : Type}

/-- The constructor; no timer has been allocated yet. -/
def init (world : ω) : SortTimerLst γ υ ω :=
  { head := none, tail := none, timers := Heap.empty, world }

def load (list : SortTimerLst γ υ ω) (timer : Ptr) : Except Fault (UtilTimer γ υ) :=
  list.timers.load timer

/-- `timer->next = link` -/
def storeNext (list : SortTimerLst γ υ ω) (timer link : Ptr) :
    Except Fault (SortTimerLst γ υ ω) := do
  return { list with timers := ← list.timers.store timer fun node => { node with next := link } }

/-- `timer->prev = link` -/
def storePrev (list : SortTimerLst γ υ ω) (timer link : Ptr) :
    Except Fault (SortTimerLst γ υ ω) := do
  return { list with timers := ← list.timers.store timer fun node => { node with prev := link } }

/-- `timer->expire = expire` -/
def storeExpire (list : SortTimerLst γ υ ω) (timer : Ptr) (expire : Int) :
    Except Fault (SortTimerLst γ υ ω) := do
  return { list with timers := ← list.timers.store timer fun node => { node with expire } }

/-- `delete timer` -/
def delete (list : SortTimerLst γ υ ω) (timer : Ptr) : Except Fault (SortTimerLst γ υ ω) := do
  return { list with timers := ← list.timers.delete timer }

/-- The scan of the private `add_timer`, from `tmp` on. -/
def addTimerLoop (fuel : Nat) (list : SortTimerLst γ υ ω) (timer tmp : Ptr) :
    Except Fault (SortTimerLst γ υ ω) :=
  match tmp with
  | none => do
      -- `tmp` ran off the list: the timer becomes the new tail
      let list ← list.storeNext list.tail timer
      let list ← list.storeNext timer none
      let list ← list.storePrev timer list.tail
      return { list with tail := timer }
  | some _ =>
      match fuel with
      | 0 => .error .outOfFuel
      | fuel + 1 => do
          if (← list.load timer).expire < (← list.load tmp).expire then
            let list ← list.storeNext timer tmp
            let list ← list.storePrev timer (← list.load tmp).prev
            let list ← list.storeNext (← list.load tmp).prev timer
            list.storePrev tmp timer
          else
            addTimerLoop fuel list timer (← list.load tmp).next

/-- The private `add_timer(timer, start)`: insert behind `start`, which is not
itself compared. -/
def addTimerBehind (fuel : Nat) (list : SortTimerLst γ υ ω) (timer start : Ptr) :
    Except Fault (SortTimerLst γ υ ω) := do
  addTimerLoop fuel list timer (← list.load start).next

def addTimer (fuel : Nat) (list : SortTimerLst γ υ ω) (timer : Ptr) :
    Except Fault (SortTimerLst γ υ ω) :=
  match timer, list.head with
  | none, _ => .ok list
  | some _, none => .ok { list with head := timer, tail := timer }
  | some _, some _ => do
      if (← list.load timer).expire < (← list.load list.head).expire then
        let list ← list.storePrev list.head timer
        let list ← list.storeNext timer list.head
        return { list with head := timer }
      else
        addTimerBehind fuel list timer list.head

def adjustTimer (fuel : Nat) (list : SortTimerLst γ υ ω) (timer : Ptr) :
    Except Fault (SortTimerLst γ υ ω) :=
  match timer with
  | none => .ok list
  | some _ => do
      match (← list.load timer).next with
      | none => return list
      | some tmp =>
          if (← list.load timer).expire < (← list.load (some tmp)).expire then
            return list
          else if timer = list.head then
            let list := { list with head := (← list.load list.head).next }
            let list ← list.storePrev list.head none
            let list ← list.storeNext timer none
            addTimerBehind fuel list timer list.head
          else
            let list ← list.storePrev (← list.load timer).next (← list.load timer).prev
            let list ← list.storeNext (← list.load timer).prev (← list.load timer).next
            addTimerBehind fuel list timer (← list.load timer).next

def delTimer (list : SortTimerLst γ υ ω) (timer : Ptr) : Except Fault (SortTimerLst γ υ ω) :=
  match timer with
  | none => .ok list
  | some _ => do
      if timer = list.head ∧ timer = list.tail then
        let list ← list.delete timer
        return { list with head := none, tail := none }
      else if timer = list.head then
        let list ← list.storePrev (← list.load list.head).next none
        let list := { list with head := (← list.load list.head).next }
        list.delete timer
      else if timer = list.tail then
        let list ← list.storeNext (← list.load list.tail).prev none
        let list := { list with tail := (← list.load list.tail).prev }
        list.delete timer
      else
        let list ← list.storeNext (← list.load timer).prev (← list.load timer).next
        let list ← list.storePrev (← list.load timer).next (← list.load timer).prev
        list.delete timer

/-- What a callback does when it is called with its argument. -/
abbrev Invoke (γ υ ω : Type) :=
  γ → υ → SortTimerLst γ υ ω → Except Fault (SortTimerLst γ υ ω)

/-- Callbacks that act on the rest of the program and do not touch the list. -/
def confined (effect : γ → υ → ω → Except Fault ω) : Invoke γ υ ω :=
  fun cbFunc userData list => do
    return { list with world := ← effect cbFunc userData list.world }

/-- Such callbacks that cannot go wrong. -/
def quiet (effect : γ → υ → ω → ω) : Invoke γ υ ω :=
  confined fun cbFunc userData world => .ok (effect cbFunc userData world)

/-- The loop of `tick` at clock value `cur`, from `tmp` on. -/
def tickLoop (invoke : Invoke γ υ ω) (cur : Int) (fuel : Nat) (list : SortTimerLst γ υ ω)
    (tmp : Ptr) : Except Fault (SortTimerLst γ υ ω) :=
  match tmp with
  | none => .ok list
  | some _ =>
      match fuel with
      | 0 => .error .outOfFuel
      | fuel + 1 => do
          let timer ← list.load tmp
          if cur < timer.expire then
            return list
          else
            let list ← invoke timer.cbFunc timer.userData list
            let list := { list with head := (← list.load tmp).next }
            let list ← if list.head.isSome then list.storePrev list.head none else pure list
            let list ← list.delete tmp
            tickLoop invoke cur fuel list list.head

/-- `tick`, with `time(NULL)` returning `cur`. The tail is left as it is, also
when the last timer is deleted. -/
def tick (invoke : Invoke γ υ ω) (cur : Int) (fuel : Nat) (list : SortTimerLst γ υ ω) :
    Except Fault (SortTimerLst γ υ ω) :=
  tickLoop invoke cur fuel list list.head

end SortTimerLst

end HPLinuxServer.Timer
