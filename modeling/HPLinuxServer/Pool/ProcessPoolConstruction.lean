import Mathlib.Logic.Function.Basic
import HPLinuxServer.Kernel.FileTable

/-!
# The construction of the process pool

The constructor of `processpool`: for each child two socket pairs and a `fork`, after which
parent and child close the ends that are the other's. A child is a copy of its parent, so it
has what the parent has kept for the children before it.
-/

set_option autoImplicit false

namespace HPLinuxServer.Pool

open Kernel

/-- `m_p2c_pipefd` and `m_c2p_pipefd` -/
inductive Channel where
  | p2c
  | c2p
  deriving DecidableEq, Repr

/-- The index of the end that the parent keeps. -/
def Channel.parentEnd : Channel → Fin 2
  | p2c => 0
  | c2p => 1

/-- What a descriptor stands for: the end of a socket pair, with its index in the array of
two, or something that was open before. -/
inductive Description (δ : Type) where
  | earlier (description : δ)
  | socket (channel : Channel) (child : Nat) (index : Fin 2)
  deriving DecidableEq, Repr

/-- `process` -/
structure SubProcess where
  pid : Int
  pipefd : Channel → Fin 2 → Nat

/-- One of the processes: what the object says in it, and its descriptors. -/
structure PoolMember (δ : Type) where
  idx : Int
  subProcess : Nat → SubProcess
  table : FileTable (Description δ)

/-- The processes that have come out of the constructor. -/
structure Constructed (δ : Type) where
  parent : PoolMember δ
  children : List (PoolMember δ)

/-- `MAX_PROCESS_NUMBER` -/
def maxProcessNumber : Int := 16

namespace PoolMember

variable {δ : Type}

/-- `m_sub_process[child]` is written to. -/
def store (member : PoolMember δ) (child : Nat) (subProcess : SubProcess) : PoolMember δ :=
  { member with subProcess := Function.update member.subProcess child subProcess }

def setPid (member : PoolMember δ) (child : Nat) (pid : Int) : PoolMember δ :=
  member.store child { member.subProcess child with pid }

/-- `socketpair` into one of the arrays. -/
def socketpair (member : PoolMember δ) (child : Nat) (channel : Channel) : PoolMember δ :=
  let (first, table) := member.table.install (.socket channel child 0)
  let (second, table) := table.install (.socket channel child 1)
  let pipefd := Function.update (member.subProcess child).pipefd channel fun index =>
    if index = 0 then first else second
  { member with table }.store child { member.subProcess child with pipefd }

/-- `close` of an entry of one of the arrays. -/
def closeEnd (member : PoolMember δ) (child : Nat) (channel : Channel) (index : Fin 2) : PoolMember δ :=
  { member with table := member.table.close ((member.subProcess child).pipefd channel index) }

/-- What the process does for which `fork` has returned 0. -/
def inChild (member : PoolMember δ) (child : Nat) : PoolMember δ :=
  { ((member.setPid child 0).closeEnd child .p2c 0).closeEnd child .c2p 1 with idx := child }

/-- What the other one does. -/
def inParent (member : PoolMember δ) (child : Nat) (pid : Int) : PoolMember δ :=
  ((member.setPid child pid).closeEnd child .p2c 1).closeEnd child .c2p 0

/-- The loop, from a child on, with what `fork` returns to the parent. It aborts if `fork`
fails. -/
def forkFrom (fork : Nat → Int) (parent : PoolMember δ) (child : Nat) : Nat → Option (Constructed δ)
  | 0 => some ⟨parent, []⟩
  | rounds + 1 => do
      let paired := (parent.socketpair child .p2c).socketpair child .c2p
      guard (0 ≤ fork child)
      let constructed ← (paired.inParent child (fork child)).forkFrom fork (child + 1) rounds
      return { constructed with children := paired.inChild child :: constructed.children }

end PoolMember

/-- `processpool(listenfd, process_number)`, from the descriptors that are open and what the
memory of `m_sub_process` holds before. -/
def constructProcessPool {δ : Type} (fork : Nat → Int) (initial : FileTable δ)
    (pipefd : Nat → Channel → Fin 2 → Nat) (processNumber : Int) : Option (Constructed δ) := do
  guard (0 < processNumber ∧ processNumber ≤ maxProcessNumber)
  let parent : PoolMember δ :=
    { idx := -1
      subProcess := fun child => ⟨-1, pipefd child⟩
      table := initial.map .earlier }
  parent.forkFrom fork 0 processNumber.toNat

end HPLinuxServer.Pool
