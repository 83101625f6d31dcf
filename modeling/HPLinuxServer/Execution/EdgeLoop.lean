import HPLinuxServer.Http.HttpResponse
import HPLinuxServer.Kernel.EdgeTriggered
import HPLinuxServer.Pool.ProcessPool
import HPLinuxServer.Refinement.Runs

/-!
# What an event loop takes

The loops of `web_server.cpp` and `timeout_server.cpp` next to the queues of their
sockets: how many connections or bytes one event makes them take. Every descriptor is
registered with EPOLLET.
-/

set_option autoImplicit false

namespace HPLinuxServer.Execution

open Kernel

/-- What an event is about. A client goes by the number of its connection. -/
inductive Source where
  | listenfd
  | client (number : Nat)
  deriving DecidableEq, Repr

/-- The socket of a client, with the bytes received and not read. -/
structure Socket where
  stream : Watch UInt8
  registered : Bool
  deriving DecidableEq, Repr

namespace Socket

def fresh : Socket where
  stream := .idle
  registered := false

/-- Bytes arrive, or the end of the stream if there are none. -/
def receive (socket : Socket) (bytes : List UInt8) : Socket :=
  { socket with
    stream :=
      if socket.registered then socket.stream.arrive bytes
      else { socket.stream with waiting := socket.stream.waiting ++ bytes } }

/-- `addfd`: EPOLL_CTL_ADD raises an event for what is there already. -/
def register (socket : Socket) : Socket where
  stream :=
    { waiting := socket.stream.waiting
      raised := decide (socket.stream.waiting ≠ [])
      reported := false }
  registered := true

end Socket

structure EdgeLoop where
  /-- the clients that have connected so far -/
  connected : Nat
  /-- the completed connections in the queue of `listenfd` -/
  completed : Watch Nat
  sockets : Nat → Socket
  /-- the events of this batch that are still to be handled -/
  pending : List Source

inductive LoopOp (ρ : Type) where
  | connect
  | receive (number : Nat) (bytes : List UInt8)
  /-- `epoll_wait` returns these events -/
  | epollWait (batch : List Source)
  /-- the next event is handled, with these results of the system calls -/
  | handle (answer : ρ)
  /-- a client is closed after a batch -/
  | close (number : Nat)
  deriving DecidableEq, Repr

/-- The branches of a server for its listening socket and for its clients. -/
structure Branches (ρ : Type) where
  onListen : EdgeLoop → ρ → EdgeLoop
  onClient : EdgeLoop → Nat → ρ → EdgeLoop

namespace EdgeLoop

variable {ρ : Type}

def init : EdgeLoop where
  connected := 0
  completed := .idle
  sockets := fun _ => .fresh
  pending := []

def setSocket (loop : EdgeLoop) (number : Nat) (socket : Socket) : EdgeLoop :=
  { loop with sockets := Function.update loop.sockets number socket }

/-- One `accept`; the connection that it takes is registered or not. -/
def accept (loop : EdgeLoop) (registers : Bool) : EdgeLoop :=
  let taken := { loop with completed := loop.completed.handled 1 }
  match registers, loop.completed.waiting with
  | true, number :: _ => taken.setSocket number (loop.sockets number).register
  | true, [] => taken
  | false, _ => taken

/-- The event is handled without taking a connection. -/
def decline (loop : EdgeLoop) : EdgeLoop := { loop with completed := loop.completed.handled 0 }

/-- The handler of an event of the client takes this many bytes. -/
def take (loop : EdgeLoop) (number count : Nat) : EdgeLoop :=
  loop.setSocket number
    { loop.sockets number with stream := (loop.sockets number).stream.handled count }

/-- The descriptor is closed, and with it what was received. -/
def closeClient (loop : EdgeLoop) (number : Nat) : EdgeLoop := loop.setSocket number .fresh

def report (loop : EdgeLoop) : Source → EdgeLoop
  | .listenfd => { loop with completed := loop.completed.report }
  | .client number =>
      loop.setSocket number
        { loop.sockets number with stream := (loop.sockets number).stream.report }

def exec (branches : Branches ρ) (loop : EdgeLoop) : LoopOp ρ → EdgeLoop
  | .connect =>
      { loop with
        connected := loop.connected + 1
        completed := loop.completed.arrive [loop.connected] }
  | .receive number bytes => loop.setSocket number ((loop.sockets number).receive bytes)
  | .epollWait batch => { batch.foldl report loop with pending := batch }
  | .handle answer =>
      match loop.pending with
      | [] => loop
      | .listenfd :: rest => branches.onListen { loop with pending := rest } answer
      | .client number :: rest => branches.onClient { loop with pending := rest } number answer
  | .close number => loop.closeClient number

/-- `epoll_wait` can report the event. -/
def Ready (loop : EdgeLoop) : Source → Prop
  | .listenfd => loop.completed.raised = true
  | .client number =>
      (loop.sockets number).registered = true ∧ (loop.sockets number).stream.raised = true

instance (loop : EdgeLoop) : ∀ source, Decidable (loop.Ready source)
  | .listenfd => inferInstanceAs (Decidable (loop.completed.raised = true))
  | .client _ => inferInstanceAs (Decidable (_ ∧ _))

/-- The operation can be the next one. -/
def Enabled (loop : EdgeLoop) : LoopOp ρ → Prop
  | .connect => True
  | .receive number _ => number < loop.connected
  | .epollWait batch => loop.pending = [] ∧ batch.Nodup ∧ ∀ source ∈ batch, loop.Ready source
  | .handle _ => loop.pending ≠ []
  | .close number => loop.pending = [] ∧ (loop.sockets number).registered = true

instance (loop : EdgeLoop) : ∀ op : LoopOp ρ, Decidable (loop.Enabled op)
  | .connect => inferInstanceAs (Decidable True)
  | .receive number _ => inferInstanceAs (Decidable (number < loop.connected))
  | .epollWait _ => inferInstanceAs (Decidable (_ ∧ _ ∧ _))
  | .handle _ => inferInstanceAs (Decidable (loop.pending ≠ []))
  | .close _ => inferInstanceAs (Decidable (_ ∧ _))

/-- When the loop is about to block, there is an event for everything that waits at a
registered descriptor. -/
def Drained (loop : EdgeLoop) : Prop :=
  loop.pending = [] →
    (loop.completed.waiting ≠ [] → loop.completed.raised = true) ∧
      ∀ number, (loop.sockets number).registered = true →
        (loop.sockets number).stream.waiting ≠ [] → (loop.sockets number).stream.raised = true

end EdgeLoop

namespace TimeoutServer

/-- `BUFFER_SIZE` of `lst_timer.h` -/
def bufferSize : Nat := 64

/-- What `recv` has found at the end of what was received: the end of the stream, or
nothing yet. -/
structure LoopAnswer where
  ended : Bool
  deriving DecidableEq, Repr

/-- One `accept` and `addfd`. If it fails, the assertion ends the process. -/
def acceptBranch (loop : EdgeLoop) (_ : LoopAnswer) : EdgeLoop := loop.accept true

/-- One `recv` of up to `BUFFER_SIZE - 1` bytes. -/
def receiveBranch (loop : EdgeLoop) (number : Nat) (answer : LoopAnswer) : EdgeLoop :=
  if (loop.sockets number).stream.waiting = [] ∧ answer.ended then loop.closeClient number
  else loop.take number (bufferSize - 1)

def branches : Branches LoopAnswer where
  onListen := acceptBranch
  onClient := receiveBranch

end TimeoutServer

namespace WebServer

/-- What the system calls return while an event is handled, its flags, and the object
that belongs to it. -/
structure LoopAnswer where
  accepted : Bool
  hangup : Bool
  input : Bool
  conn : Http.HttpConn

/-- One `accept`. The connection is given to `init` with the listening descriptor, whose
registration `addfd` asks for again, in vain; or it is closed, if there are too many. -/
def acceptBranch (loop : EdgeLoop) (answer : LoopAnswer) : EdgeLoop :=
  if answer.accepted then loop.accept false else loop.decline

/-- The other branches; `read` goes on until nothing is left, or the client is closed. -/
def clientBranch (loop : EdgeLoop) (number : Nat) (answer : LoopAnswer) : EdgeLoop :=
  let waiting := (loop.sockets number).stream.waiting
  if answer.hangup then loop.closeClient number
  else if answer.input then
    if (answer.conn.read (if waiting = [] then [] else [.data waiting])).2 then
      loop.take number waiting.length
    else loop.closeClient number
  else loop.take number 0

def branches : Branches LoopAnswer where
  onListen := acceptBranch
  onClient := clientBranch

end WebServer

end HPLinuxServer.Execution
