/-!
# Addressed memory

Objects of one type at the addresses of a C++ heap, with the ways in which an
access can fail. Addresses may be handed out again after a deletion, so a stale
pointer can coincide with the address of a newer object.
-/

set_option autoImplicit false

namespace HPLinuxServer.Memory

abbrev Addr := Nat

/-- A pointer value; `none` is the null pointer. -/
abbrev Ptr := Option Addr

/-- Why a computation of the modelled program cannot go on. `outOfFuel` is the
only entry that is not undefined behaviour: it marks a loop that was not given
enough iterations. -/
inductive Fault where
  | nullDereference
  | useAfterFree
  | invalidFree
  | outOfBounds
  | uninitialised
  | signedOverflow
  | badDescriptor
  | outOfFuel
  deriving DecidableEq, Repr

instance instDecidableEqExcept {ε α : Type} [DecidableEq ε] [DecidableEq α] :
    DecidableEq (Except ε α)
  | .ok first, .ok second => decidable_of_iff (first = second) ⟨congrArg _, Except.ok.inj⟩
  | .error first, .error second => decidable_of_iff (first = second) ⟨congrArg _, Except.error.inj⟩
  | .ok _, .error _ => isFalse nofun
  | .error _, .ok _ => isFalse nofun

@[simp] theorem ok_bind {ε α β : Type} (value : α) (next : α → Except ε β) :
    (Except.ok value >>= next) = next value := rfl

@[simp] theorem error_bind {ε α β : Type} (error : ε) (next : α → Except ε β) :
    (Except.error error >>= next) = Except.error error := rfl

@[simp] theorem pure_eq_ok {ε α : Type} (value : α) :
    (pure value : Except ε α) = Except.ok value := rfl

theorem bind_eq_ok_iff {ε α β : Type} {computation : Except ε α} {next : α → Except ε β}
    {result : β} :
    (computation >>= next) = .ok result ↔
      ∃ value, computation = .ok value ∧ next value = .ok result := by
  cases computation with
  | error error => simp
  | ok value => simp

/-- The allocated objects by address. -/
abbrev Heap (α : Type) := Addr → Option α

namespace Heap

variable {α : Type}

def empty : Heap α := fun _ => none

/-- The object at `address` becomes `object`; used by `new` and by whole-object stores. -/
def write (heap : Heap α) (address : Addr) (object : α) : Heap α :=
  fun other => if other = address then some object else heap other

def erase (heap : Heap α) (address : Addr) : Heap α :=
  fun other => if other = address then none else heap other

/-- Change the object at `address`, if there is one. -/
def modify (heap : Heap α) (address : Addr) (change : α → α) : Heap α :=
  fun other => if other = address then (heap other).map change else heap other

/-- Read through a pointer. -/
def load (heap : Heap α) : Ptr → Except Fault α
  | none => .error .nullDereference
  | some address =>
      match heap address with
      | none => .error .useAfterFree
      | some object => .ok object

/-- Store into a member of the object behind a pointer. -/
def store (heap : Heap α) (pointer : Ptr) (change : α → α) : Except Fault (Heap α) :=
  match pointer with
  | none => .error .nullDereference
  | some address =>
      match heap address with
      | none => .error .useAfterFree
      | some _ => .ok (heap.modify address change)

/-- `delete pointer`; deleting the null pointer does nothing. -/
def delete (heap : Heap α) : Ptr → Except Fault (Heap α)
  | none => .ok heap
  | some address =>
      match heap address with
      | none => .error .invalidFree
      | some _ => .ok (heap.erase address)

@[simp] theorem empty_apply (address : Addr) : (empty : Heap α) address = none := rfl

@[simp] theorem write_self (heap : Heap α) (address : Addr) (object : α) :
    heap.write address object address = some object := by
  simp [write]

@[simp] theorem write_other (heap : Heap α) {address other : Addr} (object : α)
    (different : other ≠ address) : heap.write address object other = heap other := by
  simp [write, different]

@[simp] theorem erase_self (heap : Heap α) (address : Addr) :
    heap.erase address address = none := by
  simp [erase]

@[simp] theorem erase_other (heap : Heap α) {address other : Addr}
    (different : other ≠ address) : heap.erase address other = heap other := by
  simp [erase, different]

@[simp] theorem modify_self (heap : Heap α) (address : Addr) (change : α → α) :
    heap.modify address change address = (heap address).map change := by
  simp [modify]

@[simp] theorem modify_other (heap : Heap α) {address other : Addr} (change : α → α)
    (different : other ≠ address) : heap.modify address change other = heap other := by
  simp [modify, different]

theorem load_some {heap : Heap α} {address : Addr} {object : α}
    (found : heap address = some object) : heap.load (some address) = .ok object := by
  simp [load, found]

theorem store_some {heap : Heap α} {address : Addr} {object : α}
    (found : heap address = some object) (change : α → α) :
    heap.store (some address) change = .ok (heap.modify address change) := by
  simp [store, found]

theorem delete_some {heap : Heap α} {address : Addr} {object : α}
    (found : heap address = some object) :
    heap.delete (some address) = .ok (heap.erase address) := by
  simp [delete, found]

/-- A store keeps every observation of the objects that its change keeps. -/
theorem modify_map {β : Type} (heap : Heap α) (address : Addr) (change : α → α)
    (observe : α → β) (kept : ∀ object, observe (change object) = observe object)
    (other : Addr) : (heap.modify address change other).map observe = (heap other).map observe := by
  by_cases same : other = address
  · subst other
    cases found : heap address <;> simp [found, kept]
  · simp [same]

theorem modify_isSome (heap : Heap α) (address : Addr) (change : α → α) (other : Addr) :
    (heap.modify address change other).isSome = (heap other).isSome := by
  by_cases same : other = address
  · subst other; simp
  · simp [same]

end Heap

end HPLinuxServer.Memory
