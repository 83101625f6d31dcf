import HPLinuxServer.Memory.Heap
import HPLinuxServer.Memory.Int32

/-!
# Time heap

`time_heap` of `time_heap.h`: timers in an array that is meant to be a binary
heap ordered by expiration time. The array is a block of memory of its own, with
entries that may be unset, so that reads outside of it, of entries that were
never written and of blocks that have been released are faults. The text of the
file does not compile (a missing semicolon, two misspelt names); it is read as
it is meant.
-/

set_option autoImplicit false

namespace HPLinuxServer.Timer

open Memory

/-- `heap_timer`, over the type `γ` of callbacks and `υ` of their arguments. -/
structure HeapTimer (γ υ : Type) where
  expire : Int
  cbFunc : Option γ
  userData : υ
  deriving DecidableEq, Repr

/-- An array of `heap_timer *`; an unset entry is `none`. -/
abbrev Block := List (Option Ptr)

/-- `time_heap` with the memory that its pointers refer to. -/
structure TimeHeap (γ υ : Type) where
  array : Addr
  capacity : Int
  curSize : Int
  blocks : Heap Block
  timers : Heap (HeapTimer γ υ)

namespace TimeHeap

variable {γ υ : Type}

/-- `block[index]` -/
def loadCell (heap : TimeHeap γ υ) (block : Addr) (index : Int) : Except Fault Ptr := do
  let cells ← heap.blocks.load (some block)
  if index < 0 then .error .outOfBounds
  else
    match cells[index.toNat]? with
    | none => .error .outOfBounds
    | some none => .error .uninitialised
    | some (some pointer) => .ok pointer

/-- `block[index] = pointer` -/
def storeCell (heap : TimeHeap γ υ) (block : Addr) (index : Int) (pointer : Ptr) :
    Except Fault (TimeHeap γ υ) := do
  let cells ← heap.blocks.load (some block)
  if index < 0 ∨ index.toNat ≥ cells.length then .error .outOfBounds
  else
    return { heap with blocks := heap.blocks.write block (cells.set index.toNat (some pointer)) }

/-- `array[index]` -/
def entry (heap : TimeHeap γ υ) (index : Int) : Except Fault Ptr :=
  heap.loadCell heap.array index

/-- `array[index] = pointer` -/
def storeEntry (heap : TimeHeap γ υ) (index : Int) (pointer : Ptr) :
    Except Fault (TimeHeap γ υ) :=
  heap.storeCell heap.array index pointer

/-- `array[index]->expire` -/
def expireAt (heap : TimeHeap γ υ) (index : Int) : Except Fault Int := do
  return (← heap.timers.load (← heap.entry index)).expire

/-- The constructor `time_heap(cap)`, with `new` returning `block` for the array. -/
def init (cap : Nat) (block : Addr) : TimeHeap γ υ :=
  { array := block, capacity := cap, curSize := 0
    blocks := Heap.empty.write block (List.replicate cap (some none))
    timers := Heap.empty }

def empty (heap : TimeHeap γ υ) : Bool := heap.curSize = 0

/-- `top`; null for an empty heap. -/
def top (heap : TimeHeap γ υ) : Except Fault Ptr :=
  if heap.empty then .ok none else heap.entry 0

/-- The loop of `resize` from `i` on, with `rounds` rounds left. The old array is
released, and `array` switched over, in every round. -/
def resizeLoop (heap : TimeHeap γ υ) (newArray : Addr) (i : Int) :
    Nat → Except Fault (TimeHeap γ υ)
  | 0 => .ok heap
  | rounds + 1 => do
      let heap ←
        if i < heap.curSize then heap.storeCell newArray i (← heap.entry i)
        else heap.storeCell newArray i none
      let heap := { heap with blocks := ← heap.blocks.delete (some heap.array) }
      let heap := { heap with array := newArray }
      resizeLoop heap newArray (i + 1) rounds

/-- `resize`, with `new` returning `newArray`. -/
def resize (heap : TimeHeap γ υ) (newArray : Addr) : Except Fault (TimeHeap γ υ) := do
  let capacity ← checkInt (heap.capacity * 2)
  let heap := { heap with
    capacity
    blocks := heap.blocks.write newArray (List.replicate capacity.toNat none) }
  resizeLoop heap newArray 0 capacity.toNat

/-- The loop of `add_timer`, which gives the hole it ends with. -/
def addTimerLoop (fuel : Nat) (heap : TimeHeap γ υ) (timer : Ptr) (hole : Int) :
    Except Fault (TimeHeap γ υ × Int) := do
  if hole > 0 then
    match fuel with
    | 0 => .error .outOfFuel
    | fuel + 1 => do
        let parent := (heap.curSize - 1).tdiv 2
        if (← heap.expireAt parent) > (← heap.timers.load timer).expire then
          let heap ← heap.storeEntry hole (← heap.entry parent)
          addTimerLoop fuel heap timer parent
        else
          return (heap, hole)
  else
    return (heap, hole)

/-- `add_timer`; `newArray` is where `new` puts a larger array if one is made. -/
def addTimer (fuel : Nat) (heap : TimeHeap γ υ) (timer : Ptr) (newArray : Addr) :
    Except Fault (TimeHeap γ υ) :=
  match timer with
  | none => .ok heap
  | some _ => do
      let heap ← if heap.curSize ≥ heap.capacity then heap.resize newArray else pure heap
      let hole := heap.curSize
      let heap := { heap with curSize := ← checkInt (heap.curSize + 1) }
      let (heap, hole) ← addTimerLoop fuel heap timer hole
      heap.storeEntry hole timer

/-- `del_timer`: the timer stays in the heap without a callback. -/
def delTimer (heap : TimeHeap γ υ) (timer : Ptr) : Except Fault (TimeHeap γ υ) :=
  match timer with
  | none => .ok heap
  | some _ => do
      return { heap with
        timers := ← heap.timers.store timer fun node => { node with cbFunc := none } }

/-- The child of `pos` that `precolate_down` compares with: the lesser one, or the
first one if the other is beyond the end; the first is not checked against it. -/
def lesserChild (heap : TimeHeap γ υ) (pos : Int) : Except Fault Int := do
  let child ← checkInt (2 * pos + 1)
  if child < heap.curSize - 1 then
    if (← heap.expireAt child) > (← heap.expireAt (child + 1)) then return child + 1
    else return child
  else return child

/-- The loop of `precolate_down`, which gives the position it ends with. -/
def precolateDownLoop (fuel : Nat) (heap : TimeHeap γ υ) (pos child : Int) :
    Except Fault (TimeHeap γ υ × Int) := do
  if child < heap.curSize then
    match fuel with
    | 0 => .error .outOfFuel
    | fuel + 1 => do
        let child ← heap.lesserChild pos
        if (← heap.expireAt child) < (← heap.expireAt pos) then
          let heap ← heap.storeEntry pos (← heap.entry child)
          precolateDownLoop fuel heap child child
        else
          return (heap, pos)
  else
    return (heap, pos)

def precolateDown (fuel : Nat) (heap : TimeHeap γ υ) (pos : Int) :
    Except Fault (TimeHeap γ υ) := do
  if pos < 0 ∨ pos ≥ heap.curSize then return heap
  else
    let tmp ← heap.entry pos
    let (heap, pos) ← precolateDownLoop fuel heap pos (← checkInt (2 * pos + 1))
    heap.storeEntry pos tmp

def popTimer (fuel : Nat) (heap : TimeHeap γ υ) : Except Fault (TimeHeap γ υ) := do
  if heap.empty then return heap
  else if (← heap.entry 0).isSome then
    let heap := { heap with timers := ← heap.timers.delete (← heap.entry 0) }
    let heap := { heap with curSize := heap.curSize - 1 }
    let heap ← heap.storeEntry 0 (← heap.entry heap.curSize)
    heap.precolateDown fuel 0
  else return heap

/-- The loop of the second constructor that copies `cur_array`, from `i` on. -/
def copyLoop (heap : TimeHeap γ υ) (curArray : List Ptr) (i : Nat) :
    Nat → Except Fault (TimeHeap γ υ)
  | 0 => .ok heap
  | rounds + 1 => do
      match curArray[i]? with
      | none => .error .outOfBounds
      | some timer => copyLoop (← heap.storeEntry i timer) curArray (i + 1) rounds

/-- The loop of the second constructor that sifts the positions below the given one, the last
one first. -/
def siftLoop (fuel : Nat) (heap : TimeHeap γ υ) : Nat → Except Fault (TimeHeap γ υ)
  | 0 => .ok heap
  | i + 1 => do siftLoop fuel (← heap.precolateDown fuel i) i

/-- The constructor `time_heap(cur_array, size, capacity)`, next to the timers that exist, with
`new` returning `block`; nothing if it throws. `cap`, which it does not declare, is read as
`capacity`. -/
def ofArray (fuel : Nat) (timers : Heap (HeapTimer γ υ)) (curArray : List Ptr)
    (size capacity : Int) (block : Addr) : Except Fault (Option (TimeHeap γ υ)) := do
  if capacity < size ∨ capacity < 0 then return none
  else
    let heap : TimeHeap γ υ :=
      { array := block, capacity, curSize := capacity
        blocks := Heap.empty.write block (List.replicate capacity.toNat (some none))
        timers }
    if size ≠ 0 then
      let heap ← heap.copyLoop curArray 0 size.toNat
      let heap ← heap.siftLoop fuel ((heap.curSize - 1).tdiv 2 + 1).toNat
      return some heap
    else return some heap

/-- The loop of `tick` at the time `cur`, with `rounds` rounds left; each sift may take
`fuel` of its own. It gives the callbacks that were invoked, with their arguments. -/
def tickLoop (fuel : Nat) (heap : TimeHeap γ υ) (tmp : Ptr) (cur : Int) (rounds : Nat) :
    Except Fault (TimeHeap γ υ × List (γ × υ)) := do
  if heap.empty then return (heap, [])
  else if tmp.isNone then return (heap, [])
  else
    let node ← heap.timers.load tmp
    if node.expire > cur then return (heap, [])
    else
      match rounds with
      | 0 => .error .outOfFuel
      | rounds + 1 => do
          let called ← heap.timers.load (← heap.entry 0)
          let invoked := called.cbFunc.toList.map fun cbFunc => (cbFunc, node.userData)
          let heap ← heap.popTimer fuel
          let (heap, later) ← tickLoop fuel heap (← heap.entry 0) cur rounds
          return (heap, invoked ++ later)

/-- `tick`, with `time(NULL)` returning `cur`; callbacks leave the heap alone. -/
def tick (fuel : Nat) (heap : TimeHeap γ υ) (cur : Int) :
    Except Fault (TimeHeap γ υ × List (γ × υ)) := do
  heap.tickLoop fuel (← heap.entry 0) cur fuel

end TimeHeap

end HPLinuxServer.Timer
