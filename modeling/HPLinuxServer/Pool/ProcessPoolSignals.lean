import Mathlib.Logic.Function.Basic
import HPLinuxServer.Kernel.SignalPipe

/-!
# Process pool: signals

How the processes of `process_pool.hpp` are asked to stop, end and are waited for: their
signal handlers and pipes, the signal branches of `run_parent` and `run_child`, and the
kernel's `kill` and `wait`. The events of other descriptors change nothing of it, unless
a process does not come back from one, and an interrupted `epoll_wait` is called again.
At the start the parent has installed its handlers, and no child has ended.
-/

set_option autoImplicit false

namespace HPLinuxServer.Pool

open Kernel

/-- The signals for which a handler is installed. -/
inductive PoolSignal where
  | sigchld
  | sigterm
  | sigint
  deriving DecidableEq, Repr

/-- Where a process of the pool is. -/
inductive MemberPlace where
  /-- a child that has not installed its handlers -/
  | starting
  /-- in `epoll_wait` -/
  | polling
  /-- about to call `recv` on `sig_pipefd[0]` -/
  | receiving
  /-- in the loop over the signals that `recv` has returned -/
  | handling (signals : List PoolSignal)
  /-- the parent in its loop of `wait`, with the signals behind SIGCHLD -/
  | joining (signals : List PoolSignal)
  /-- a child in a loop of `waitpid` that it does not leave -/
  | spinning
  /-- in a `send` for which there is no room -/
  | sending
  /-- behind the loop of `run_parent` or `run_child` -/
  | leaving
  /-- it has ended, and `wait` has not returned it -/
  | ended
  | reaped
  deriving DecidableEq, Repr

/-- It has not ended. -/
def MemberPlace.isAlive : MemberPlace → Bool
  | starting => true
  | polling => true
  | receiving => true
  | handling _ => true
  | joining _ => true
  | spinning => true
  | sending => true
  | leaving => true
  | ended => false
  | reaped => false

def MemberPlace.isHandling : MemberPlace → Bool
  | handling _ => true
  | starting => false
  | polling => false
  | receiving => false
  | joining _ => false
  | spinning => false
  | sending => false
  | leaving => false
  | ended => false
  | reaped => false

def MemberPlace.isJoining : MemberPlace → Bool
  | joining _ => true
  | starting => false
  | polling => false
  | receiving => false
  | handling _ => false
  | spinning => false
  | sending => false
  | leaving => false
  | ended => false
  | reaped => false

/-- Where a process may handle the event of another descriptor than the signal pipe. -/
def MemberPlace.isServing : MemberPlace → Bool
  | polling => true
  | receiving => true
  | leaving => true
  | starting => false
  | handling _ => false
  | joining _ => false
  | spinning => false
  | sending => false
  | ended => false
  | reaped => false

/-- A process with its `m_stop` and its signal pipe. -/
structure Member where
  place : MemberPlace
  stop : Bool
  inbox : SignalPipe PoolSignal
  deriving DecidableEq, Repr

namespace Member

def init (place : MemberPlace) : Member where
  place
  stop := false
  inbox := .empty

/-- A signal is sent to the process; one that has ended takes no notice. -/
def sent (member : Member) (signal : PoolSignal) : Member :=
  if member.place.isAlive then { member with inbox := member.inbox.raise signal } else member

/-- The handler of the process runs. -/
def delivered (capacity : Nat) (member : Member) (signal : PoolSignal) : Member :=
  { member with inbox := member.inbox.deliver capacity signal }

/-- The default action ignores SIGCHLD. -/
def ignored (member : Member) (signal : PoolSignal) : Member :=
  { member with
    inbox := { member.inbox with pending := member.inbox.pending.erase signal } }

def polled (member : Member) : Member :=
  { member with place := .receiving, inbox := member.inbox.report }

def received (member : Member) : Member :=
  { member with place := .handling member.inbox.received, inbox := member.inbox.receive }

/-- Behind the last signal: the loop is left if `m_stop` is set. -/
def handledAll (member : Member) : Member :=
  { member with place := if member.stop then .leaving else .polling }

/-- `case` of `run_child` for a signal. `unset` is what the `pid` holds that is compared
with the result of `waitpid`, which is −1 in a process without children. -/
def handledByChild (member : Member) (unset : Int) (signals : List PoolSignal) :
    PoolSignal → Member
  | .sigchld =>
      if unset = -1 then { member with place := .spinning }
      else { member with place := .handling signals }
  | .sigterm => { member with place := .handling signals, stop := true }
  | .sigint => { member with place := .handling signals, stop := true }

def ending (member : Member) : Member := { member with place := .ended, inbox := .empty }

end Member

structure Family where
  processNumber : Nat
  /-- `m_sub_process[i].m_pid` in the parent -/
  pid : Nat → Int
  parent : Member
  children : Nat → Member
  /-- the children whose `m_p2c_pipefd[0]` the parent has closed, in this order -/
  closed : List Nat
  /-- the children that `kill` was called for, and whether `wait` had returned them -/
  killed : List (Nat × Bool)
  /-- the parent has handled SIGTERM or SIGINT -/
  asked : Bool

/-- What does not change: the pids that `fork` has returned, and the size of a pipe. -/
structure FamilySetup where
  processNumber : Nat
  pid : Nat → Int
  capacity : Nat
  positive : 0 < processNumber
  pid_ne : ∀ i, pid i ≠ -1
  pid_injective : ∀ i j, pid i = pid j → i = j

/-- Nothing of a process, or which child it is. -/
inductive Relative where
  | parent
  | child (i : Nat)
  deriving DecidableEq, Repr

inductive FamilyStep where
  /-- somebody sends a signal to a process of the pool -/
  | signal (target : Relative) (signal : PoolSignal)
  /-- it reaches its handler, or the default action if there is none -/
  | deliver (target : Relative) (signal : PoolSignal)
  /-- a child has installed its handlers -/
  | started (i : Nat)
  /-- `epoll_wait` reports the signal pipe -/
  | poll (target : Relative)
  | receive (target : Relative)
  /-- the next signal is handled, or there are none -/
  | handle (target : Relative) (unset : Int)
  /-- `wait` returns a child, or −1 -/
  | wait (child : Option Nat)
  /-- a `send` blocks: of a release, which the parent never reads, or of `new_conn` -/
  | block (target : Relative)
  /-- a child behind its loop ends -/
  | exit (i : Nat)
  /-- a child ends otherwise -/
  | crash (i : Nat)
  deriving DecidableEq, Repr

namespace Family

def init (setup : FamilySetup) : Family where
  processNumber := setup.processNumber
  pid := setup.pid
  parent := .init .polling
  children := fun _ => .init .starting
  closed := []
  killed := []
  asked := false

def member (family : Family) : Relative → Member
  | .parent => family.parent
  | .child i => family.children i

def setMember (family : Family) (target : Relative) (member : Member) : Family :=
  match target with
  | .parent => { family with parent := member }
  | .child i => { family with children := Function.update family.children i member }

/-- A child ends, and the kernel sends SIGCHLD to the parent. -/
def childEnds (family : Family) (i : Nat) : Family :=
  { family with
    children := Function.update family.children i (family.children i).ending
    parent := family.parent.sent .sigchld }

def deliver (setup : FamilySetup) (family : Family) (target : Relative) (signal : PoolSignal) :
    Family :=
  match target with
  | .parent => { family with parent := family.parent.delivered setup.capacity signal }
  | .child i =>
      if (family.children i).place = .starting then
        if signal = .sigchld then
          family.setMember (.child i) ((family.children i).ignored signal)
        else family.childEnds i
      else family.setMember (.child i) ((family.children i).delivered setup.capacity signal)

/-- `kill(pid, SIGTERM)` for every child whose `m_pid` is not −1. -/
def killChildren (family : Family) : Family :=
  { family with
    children := fun i =>
      if i < family.processNumber ∧ family.pid i ≠ -1 then (family.children i).sent .sigterm
      else family.children i
    killed := family.killed ++
      ((List.range family.processNumber).filter fun i => decide (family.pid i ≠ -1)).map
        fun i => (i, decide ((family.children i).place = .reaped))
    asked := true }

/-- `case` of `run_parent` for a signal. -/
def handledByParent (family : Family) (signals : List PoolSignal) : PoolSignal → Family
  | .sigchld => { family with parent := { family.parent with place := .joining signals } }
  | .sigterm =>
      { family.killChildren with parent := { family.parent with place := .handling signals } }
  | .sigint =>
      { family.killChildren with parent := { family.parent with place := .handling signals } }

def handle (family : Family) (target : Relative) (unset : Int) : Family :=
  match (family.member target).place with
  | .handling [] => family.setMember target (family.member target).handledAll
  | .handling (signal :: signals) =>
      match target with
      | .parent => family.handledByParent signals signal
      | .child i =>
          family.setMember target ((family.children i).handledByChild unset signals signal)
  | _ => family

/-- The loop over `m_sub_process` for a pid that `wait` has returned. -/
def reclaim (family : Family) (pid : Int) : Family :=
  { family with
    pid := fun i => if i < family.processNumber ∧ family.pid i = pid then -1 else family.pid i
    closed := family.closed ++
      (List.range family.processNumber).filter fun i => decide (family.pid i = pid) }

/-- Behind the loop of `wait`: `m_stop` is set if no child is left. -/
def joined (family : Family) : Family :=
  { family with
    parent := { family.parent with
      stop := (List.range family.processNumber).all fun i => decide (family.pid i = -1)
      place :=
        match family.parent.place with
        | .joining signals => .handling signals
        | place => place } }

def wait (setup : FamilySetup) (family : Family) : Option Nat → Family
  | some i =>
      (family.setMember (.child i) { family.children i with place := .reaped }).reclaim
        (setup.pid i)
  | none => family.joined

def exec (setup : FamilySetup) (family : Family) : FamilyStep → Family
  | .signal target signal => family.setMember target ((family.member target).sent signal)
  | .deliver target signal => family.deliver setup target signal
  | .started i => family.setMember (.child i) { family.children i with place := .polling }
  | .poll target => family.setMember target (family.member target).polled
  | .receive target => family.setMember target (family.member target).received
  | .handle target unset => family.handle target unset
  | .wait child => family.wait setup child
  | .block target =>
      family.setMember target { family.member target with place := .sending }
  | .exit i => family.childEnds i
  | .crash i => family.childEnds i

/-- The process belongs to the pool. -/
def Exists (family : Family) : Relative → Prop
  | .parent => True
  | .child i => i < family.processNumber

/-- The step can be the next one. The parent's `wait` returns a child that has ended, and
−1 if there is no child. -/
def Enabled (family : Family) : FamilyStep → Prop
  | .signal target _ => family.Exists target
  | .deliver target signal =>
      family.Exists target ∧ (family.member target).place.isAlive = true ∧
        signal ∈ (family.member target).inbox.pending
  | .started i => i < family.processNumber ∧ (family.children i).place = .starting
  | .poll target =>
      family.Exists target ∧ (family.member target).place = .polling ∧
        (family.member target).inbox.pipe.raised = true
  | .receive target => family.Exists target ∧ (family.member target).place = .receiving
  | .handle target _ =>
      family.Exists target ∧ (family.member target).place.isHandling = true
  | .wait (some i) =>
      family.parent.place.isJoining = true ∧ i < family.processNumber ∧
        (family.children i).place = .ended
  | .wait none =>
      family.parent.place.isJoining = true ∧
        ∀ i < family.processNumber, (family.children i).place = .reaped
  | .block target => family.Exists target ∧ (family.member target).place.isServing = true
  | .exit i => i < family.processNumber ∧ (family.children i).place = .leaving
  | .crash i => i < family.processNumber ∧ (family.children i).place.isAlive = true

instance (family : Family) : ∀ target, Decidable (family.Exists target)
  | .parent => inferInstanceAs (Decidable True)
  | .child i => inferInstanceAs (Decidable (i < family.processNumber))

instance (family : Family) : ∀ step, Decidable (family.Enabled step)
  | .signal target _ => inferInstanceAs (Decidable (family.Exists target))
  | .deliver _ _ => inferInstanceAs (Decidable (_ ∧ _ ∧ _))
  | .started _ => inferInstanceAs (Decidable (_ ∧ _))
  | .poll _ => inferInstanceAs (Decidable (_ ∧ _ ∧ _))
  | .receive _ => inferInstanceAs (Decidable (_ ∧ _))
  | .handle _ _ => inferInstanceAs (Decidable (_ ∧ _))
  | .wait (some _) => inferInstanceAs (Decidable (_ ∧ _ ∧ _))
  | .wait none => inferInstanceAs (Decidable (_ ∧ _))
  | .block _ => inferInstanceAs (Decidable (_ ∧ _))
  | .exit _ => inferInstanceAs (Decidable (_ ∧ _))
  | .crash _ => inferInstanceAs (Decidable (_ ∧ _))

end Family

end HPLinuxServer.Pool
