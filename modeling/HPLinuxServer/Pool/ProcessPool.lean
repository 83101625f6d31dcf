import Mathlib.Logic.Function.Basic

/-!
# Process pool

`processpool` of `process_pool.hpp`: the parent's event loop `run_parent`, the children's
`run_child`, and the pipes, the listening socket and the epoll instances between them.
The signals that ask the processes to stop only appear as the end of a child. The
parent is told of a release, but never reads it from the pipe.
-/

set_option autoImplicit false

namespace HPLinuxServer.Pool

/-- A descriptor that `run_parent` compares an entry of `events` with. The kernel never
gives the same descriptor to two of them. -/
inductive ParentFd where
  | listenfd
  /-- `sig_pipefd[0]` -/
  | sigPipe
  /-- `m_sub_process[child].m_c2p_pipefd[1]` -/
  | c2p (child : Nat)
  /-- an entry of the array that was never written to -/
  | unset
  deriving DecidableEq, Repr

/-- The child whose c2p pipe it is. -/
def ParentFd.child? : ParentFd → Option Nat
  | c2p child => some child
  | listenfd => none
  | sigPipe => none
  | unset => none

/-- A child with its two pipes. Every descriptor is registered edge-triggered. -/
structure Child where
  /-- the `new_conn` messages in its p2c pipe -/
  newConns : Nat
  /-- their arrival has not been reported to the child yet -/
  pipeEdge : Bool
  /-- it has been reported, and the child has not handled it yet -/
  polled : Bool
  /-- the connections it has accepted and not closed -/
  connections : Nat
  /-- the releases in its c2p pipe, which nobody takes out -/
  sent : Nat
  /-- it waits in `send` for room in that pipe -/
  blocked : Bool
  /-- the parent has registered the c2p pipe -/
  watched : Bool
  /-- something happened to the c2p pipe that has not been reported to the parent yet -/
  releaseEdge : Bool
  /-- the releases that no report to the parent covers -/
  raised : Nat
  /-- the releases reported to the parent, which has not handled the report yet -/
  reported : Nat
  exited : Bool
  deriving DecidableEq, Repr

namespace Child

def init : Child where
  newConns := 0
  pipeEdge := false
  polled := false
  connections := 0
  sent := 0
  blocked := false
  watched := false
  releaseEdge := false
  raised := 0
  reported := 0
  exited := false

/-- The parent sends `new_conn` and registers the pipe of the answers, again and again. -/
def notify (child : Child) : Child :=
  { child with newConns := child.newConns + 1, pipeEdge := true, watched := true }

/-- The parent's `epoll_wait` reports the child's pipe. -/
def report (child : Child) : Child :=
  { child with
    releaseEdge := false
    raised := 0
    reported := child.reported + child.raised }

/-- The parent has handled such a report. -/
def heard (child : Child) : Child := { child with reported := 0 }

/-- The child's `epoll_wait` reports its p2c pipe. -/
def wait (child : Child) : Child := { child with pipeEdge := false, polled := true }

/-- One `recv` of a message and one `accept`, whose failure ends the branch. -/
def newConnection (child : Child) (accepted : Bool) : Child :=
  { child with
    newConns := child.newConns - 1
    polled := false
    connections := if accepted then child.connections + 1 else child.connections }

/-- The `send` of a release, which blocks when the pipe is full. -/
def release (child : Child) (capacity : Nat) : Child :=
  if child.sent < capacity then
    { child with sent := child.sent + 1, releaseEdge := true, raised := child.raised + 1 }
  else { child with blocked := true }

/-- `users[sockfd].process()`, which returns 0 when it has closed its connection; the
release is sent then. -/
def process (child : Child) (capacity : Nat) (ret : Int) : Child :=
  if ret = 0 then { child with connections := child.connections - 1 }.release capacity
  else child

/-- The process ends, and both its pipes are hung up. -/
def exit (child : Child) : Child :=
  { child with connections := 0, releaseEdge := true, exited := true }

/-- The assignments of the child that are outstanding. -/
def outstanding (child : Child) : Nat :=
  child.newConns + child.connections + (child.raised + child.reported)

end Child

structure ProcessPool where
  processNumber : Nat
  /-- the releases that a c2p pipe has room for -/
  capacity : Nat
  /-- `m_sub_process[i].m_pid` -/
  pid : Nat → Int
  usedProcess : Nat → Int
  subProcessCount : Nat
  /-- the whole array, with what earlier calls of `epoll_wait` left in it -/
  events : Nat → ParentFd
  /-- `events[i].data.fd` for the events of this batch that are still to be handled -/
  pending : List ParentFd
  stop : Bool
  children : Nat → Child
  /-- the completed connections that nobody has accepted -/
  backlog : Nat
  /-- a completed connection has not been reported to the parent yet -/
  listenEdge : Bool

inductive PoolEvent where
  | connect
  /-- a completed connection is aborted before it is accepted -/
  | abort
  /-- the parent's `epoll_wait` returns these events -/
  | epollWait (batch : List ParentFd)
  /-- the parent handles the next event; if it accepts, this is whether it succeeds -/
  | handle (accepted : Bool)
  /-- the child's `epoll_wait` returns an event on its p2c pipe -/
  | childWait (child : Nat)
  /-- the child handles it -/
  | newConnection (child : Nat) (accepted : Bool)
  | serve (child : Nat) (ret : Int)
  | exit (child : Nat)
  deriving DecidableEq, Repr

namespace ProcessPool

/-- The pool when its constructor returns in the parent. Neither `m_used_process` nor
`events` is initialised. -/
def init (processNumber capacity : Nat) (pid usedProcess : Nat → Int)
    (leftovers : Nat → ParentFd) : ProcessPool where
  processNumber
  capacity
  pid
  usedProcess
  subProcessCount := 0
  events := leftovers
  pending := []
  stop := false
  children := fun _ => Child.init
  backlog := 0
  listenEdge := false

def isFree (pool : ProcessPool) (i : Nat) : Bool :=
  decide (pool.pid i ≠ -1) && decide (pool.usedProcess i ≠ 1)

/-- The `do … while` loop that looks for a free child, from the `i` of a round on. -/
def scan (pool : ProcessPool) : Nat → Nat → Nat
  | 0, i => i
  | rounds + 1, i =>
      if pool.isFree i then i
      else
        let next := (i + 1) % pool.processNumber
        if next = pool.subProcessCount then next else pool.scan rounds next

def chooseChild (pool : ProcessPool) : Nat :=
  pool.scan pool.processNumber pool.subProcessCount

/-- `m_used_process[i]`, the message and the registration of child `i`. -/
def assign (pool : ProcessPool) (i : Nat) : ProcessPool :=
  { pool with
    subProcessCount := (i + 1) % pool.processNumber
    usedProcess := Function.update pool.usedProcess i 1
    children := Function.update pool.children i (pool.children i).notify }

/-- "too many users": the parent takes a connection itself and closes it. -/
def reject (pool : ProcessPool) (accepted : Bool) : ProcessPool :=
  if accepted then { pool with backlog := pool.backlog - 1 } else pool

/-- The branch of the listening socket. -/
def handleListen (pool : ProcessPool) (accepted : Bool) : ProcessPool :=
  if pool.isFree pool.chooseChild then pool.assign pool.chooseChild else pool.reject accepted

/-- Where the loop of the release branch stops. Its `i` hides the one of the events, so
that each child is looked for at its own place of the array. -/
def releasedChild (pool : ProcessPool) : Option Nat :=
  (List.range pool.processNumber).find? fun i => decide (pool.events i = .c2p i)

/-- The release branch, for an event on the pipe of `child`. -/
def handleRelease (pool : ProcessPool) (child : Nat) : ProcessPool :=
  { pool with
    usedProcess :=
      match pool.releasedChild with
      | some i => Function.update pool.usedProcess i 0
      | none => pool.usedProcess
    children := Function.update pool.children child (pool.children child).heard }

/-- SIGCHLD: `wait` is called until no child is left. -/
def joinChildren (pool : ProcessPool) : ProcessPool :=
  { pool with
    pid := fun i => if i < pool.processNumber then -1 else pool.pid i
    stop := true }

def epollWait (pool : ProcessPool) (batch : List ParentFd) : ProcessPool :=
  { pool with
    events := fun i => batch[i]?.getD (pool.events i)
    pending := batch
    children := fun i =>
      if .c2p i ∈ batch then (pool.children i).report else pool.children i
    listenEdge := pool.listenEdge && decide (.listenfd ∉ batch) }

/-- The branches of the parent's loop over the events. -/
def dispatch (pool : ProcessPool) (accepted : Bool) : ParentFd → ProcessPool
  | .listenfd => pool.handleListen accepted
  | .sigPipe => pool.joinChildren
  | .c2p child => pool.handleRelease child
  | .unset => pool

def handle (pool : ProcessPool) (accepted : Bool) : ProcessPool :=
  match pool.pending with
  | [] => pool
  | fd :: rest => dispatch { pool with pending := rest } accepted fd

def newConnection (pool : ProcessPool) (child : Nat) (accepted : Bool) : ProcessPool :=
  { pool with
    children :=
      Function.update pool.children child ((pool.children child).newConnection accepted)
    backlog := if accepted then pool.backlog - 1 else pool.backlog }

/-- Only the child changes. -/
def onChild (pool : ProcessPool) (child : Nat) (change : Child → Child) : ProcessPool :=
  { pool with children := Function.update pool.children child (change (pool.children child)) }

def exec (pool : ProcessPool) : PoolEvent → ProcessPool
  | .connect => { pool with backlog := pool.backlog + 1, listenEdge := true }
  | .abort => { pool with backlog := pool.backlog - 1 }
  | .epollWait batch => pool.epollWait batch
  | .handle accepted => pool.handle accepted
  | .childWait child => pool.onChild child Child.wait
  | .newConnection child accepted => pool.newConnection child accepted
  | .serve child ret => pool.onChild child fun place => place.process pool.capacity ret
  | .exit child => pool.onChild child Child.exit

/-- `epoll_wait` can report the descriptor to the parent. -/
def Ready (pool : ProcessPool) : ParentFd → Prop
  | .listenfd => pool.listenEdge = true
  | .sigPipe => ∃ i < pool.processNumber, (pool.children i).exited = true
  | .c2p child =>
      child < pool.processNumber ∧ (pool.children child).watched = true ∧
        (pool.children child).releaseEdge = true
  | .unset => False

/-- The child exists and runs. -/
def Runs (pool : ProcessPool) (child : Nat) : Prop :=
  child < pool.processNumber ∧ (pool.children child).exited = false

/-- The child can go on. -/
def Works (pool : ProcessPool) (child : Nat) : Prop :=
  pool.Runs child ∧ (pool.children child).blocked = false

/-- The event can be the next one. An `accept` that succeeds takes a completed connection,
and the parent's handler of SIGCHLD does not return before all children have ended. -/
def Enabled (pool : ProcessPool) : PoolEvent → Prop
  | .connect => True
  | .abort => 0 < pool.backlog
  | .epollWait batch =>
      pool.pending = [] ∧ pool.stop = false ∧ batch.Nodup ∧ ∀ fd ∈ batch, pool.Ready fd
  | .handle accepted =>
      pool.pending ≠ [] ∧ (accepted = true → 0 < pool.backlog) ∧
        (pool.pending.head? = some .sigPipe →
          ∀ i < pool.processNumber, (pool.children i).exited = true)
  | .childWait child =>
      pool.Works child ∧ (pool.children child).pipeEdge = true ∧
        (pool.children child).polled = false
  | .newConnection child accepted =>
      pool.Works child ∧ (pool.children child).polled = true ∧
        (accepted = true → 0 < pool.backlog)
  | .serve child _ => pool.Works child ∧ 0 < (pool.children child).connections
  | .exit child => pool.Runs child

instance (pool : ProcessPool) : ∀ fd, Decidable (pool.Ready fd)
  | .listenfd => inferInstanceAs (Decidable (pool.listenEdge = true))
  | .sigPipe =>
      inferInstanceAs (Decidable (∃ i < pool.processNumber, (pool.children i).exited = true))
  | .c2p child =>
      inferInstanceAs (Decidable (child < pool.processNumber ∧
        (pool.children child).watched = true ∧ (pool.children child).releaseEdge = true))
  | .unset => inferInstanceAs (Decidable False)

instance (pool : ProcessPool) (child : Nat) : Decidable (pool.Runs child) :=
  inferInstanceAs (Decidable (_ ∧ _))

instance (pool : ProcessPool) (child : Nat) : Decidable (pool.Works child) :=
  inferInstanceAs (Decidable (_ ∧ _))

instance (pool : ProcessPool) : ∀ event, Decidable (pool.Enabled event)
  | .connect => inferInstanceAs (Decidable True)
  | .abort => inferInstanceAs (Decidable (0 < pool.backlog))
  | .epollWait _ => inferInstanceAs (Decidable (_ ∧ _ ∧ _ ∧ _))
  | .handle _ => inferInstanceAs (Decidable (_ ∧ _ ∧ _))
  | .childWait _ => inferInstanceAs (Decidable (_ ∧ _ ∧ _))
  | .newConnection _ _ => inferInstanceAs (Decidable (_ ∧ _ ∧ _))
  | .serve _ _ => inferInstanceAs (Decidable (_ ∧ _))
  | .exit child => inferInstanceAs (Decidable (pool.Runs child))

/-- The child whose pipe the next event of the batch is about. -/
def releasing (pool : ProcessPool) : Option Nat := pool.pending.head?.bind ParentFd.child?

/-- The child to which the parent assigns a connection in this step. -/
def assignedChild (pool : ProcessPool) : PoolEvent → Option Nat
  | .handle _ =>
      if pool.pending.head? = some .listenfd ∧ pool.isFree pool.chooseChild then
        some pool.chooseChild
      else none
  | _ => none

end ProcessPool

end HPLinuxServer.Pool
