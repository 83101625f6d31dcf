import Mathlib.Logic.Function.Basic
import HPLinuxServer.Http.HttpResponse
import HPLinuxServer.Kernel.Descriptors
import HPLinuxServer.Refinement.Runs

/-!
# Web server

The event loop of `web_server.cpp`, the queue of its thread pool, and its threads in
`http_conn::process`. The main loop handles one event in a step; a thread calls the
kernel once in a step, and so does it store the members that the main loop reads too.
Which descriptor a connection is initialised with is a parameter.
-/

set_option autoImplicit false

namespace HPLinuxServer.Http

open Memory Kernel Refinement

/-- `MAX_FD` -/
def maxFd : Int := 65536

/-- A descriptor in the epoll set; every one is edge-triggered. -/
structure Registration where
  interest : Interest
  oneShot : Bool
  /-- an event can be reported, which EPOLLONESHOT takes back when it is -/
  armed : Bool
  deriving DecidableEq, Repr

/-- `EPOLL_CTL_MOD` gives a registration this interest, one-shot, and arms it. -/
def Registration.rearmed (interest : Interest) : Registration where
  interest
  oneShot := true
  armed := true

structure Event where
  fd : Fd
  /-- `EPOLLRDHUP | EPOLLHUP | EPOLLERR` -/
  hangup : Bool
  input : Bool
  output : Bool
  deriving DecidableEq, Repr

/-- Where a thread of the pool is. -/
inductive WorkerPlace where
  /-- without a request -/
  | idle
  /-- it has popped `users + fd` -/
  | processing (fd : Fd)
  /-- about to call `modfd` at the end of `process` -/
  | rearming (fd : Fd) (interest : Interest)
  /-- in `close_conn`, about to delete `sockfd` from the epoll set -/
  | deleting (fd sockfd : Fd)
  /-- in `close_conn`, about to close `sockfd` -/
  | closing (fd sockfd : Fd)
  /-- in `close_conn`, about to clear `m_sockfd` -/
  | clearing (fd : Fd)
  /-- back from `close_conn`, about to call `modfd` -/
  | closed (fd : Fd)
  deriving DecidableEq, Repr

/-- The object that the thread has popped and not finished with. -/
def WorkerPlace.object? : WorkerPlace → Option Fd
  | idle => none
  | processing fd => some fd
  | rearming fd _ => some fd
  | deleting fd _ => some fd
  | closing fd _ => some fd
  | clearing fd => some fd
  | closed fd => some fd

def WorkerPlace.isProcessing : WorkerPlace → Bool
  | processing _ => true
  | idle => false
  | rearming _ _ => false
  | deleting _ _ => false
  | closing _ _ => false
  | clearing _ => false
  | closed _ => false

/-- The thread's next step is one of `call`. -/
def WorkerPlace.isCalling : WorkerPlace → Bool
  | rearming _ _ => true
  | deleting _ _ => true
  | closing _ _ => true
  | clearing _ => true
  | closed _ => true
  | idle => false
  | processing _ => false

/-- The thread has closed the object's descriptor in this call of `process`. -/
def WorkerPlace.hasClosed : WorkerPlace → Bool
  | clearing _ => true
  | closed _ => true
  | idle => false
  | processing _ => false
  | rearming _ _ => false
  | deleting _ _ => false
  | closing _ _ => false

/-- The first argument of `init` in the accept branch. -/
inductive InitArgument where
  /-- as it stands: `sockfd`, the descriptor of the event, which is the listening one -/
  | sockfd
  /-- the connection's own descriptor -/
  | connfd
  deriving DecidableEq, Repr

structure Setup where
  listenfd : Fd
  /-- the descriptors that are open before the loop -/
  own : Fd → Bool
  listenfd_own : own listenfd = true
  listenfd_nonneg : 0 ≤ listenfd
  initArgument : InitArgument
  /-- `m_max_requests`, which the pool's constructor leaves to chance -/
  maxRequests : Nat
  /-- `m_thread_number` -/
  threadNumber : Nat

/-- What became of an entry of `users`. -/
inductive Life where
  | unused
  | inUse
  | closed
  deriving DecidableEq, Repr

structure WebServer where
  users : Fd → HttpConn
  descriptors : Descriptors Registration
  /-- `m_user_count` -/
  userCount : Int
  /-- the events of this batch that are still to be handled -/
  pending : List Event
  workqueue : List Fd
  workers : Nat → WorkerPlace
  /-- which entries `init` and `close_conn` were called for, the last call counting -/
  life : Fd → Life

/-- What `accept`, `recv` and `writev` return if they are called. -/
structure Answers where
  connfd : Fd
  received : List RecvResult
  written : List WritevResult
  deriving DecidableEq, Repr

namespace WebServer

variable {server : WebServer}

/-- `users[fd]` -/
def user (server : WebServer) (fd : Fd) : Except Fault HttpConn :=
  if 0 ≤ fd ∧ fd < maxFd then .ok (server.users fd) else .error .outOfBounds

def setUser (server : WebServer) (fd : Fd) (conn : HttpConn) : WebServer :=
  { server with users := Function.update server.users fd conn }

def setLife (server : WebServer) (fd : Fd) (life : Life) : WebServer :=
  { server with life := Function.update server.life fd life }

def moveWorker (server : WebServer) (worker : Nat) (place : WorkerPlace) : WebServer :=
  { server with workers := Function.update server.workers worker place }

/-- A call that a function of the object makes. EPOLL_CTL_ADD fails for a descriptor that
is registered already or not open, EPOLL_CTL_MOD for one that is not registered. -/
def perform (server : WebServer) : Effect → WebServer
  | .epollAdd fd =>
      if server.descriptors.isOpen fd = true ∧ server.descriptors.epoll fd = none then
        { server with descriptors := server.descriptors.epollAdd fd (.rearmed .input) }
      else server
  | .epollMod fd interest =>
      if server.descriptors.epoll fd = none then server
      else { server with descriptors := server.descriptors.epollAdd fd (.rearmed interest) }
  | .epollDel fd => { server with descriptors := server.descriptors.epollDel fd }
  | .close fd => { server with descriptors := server.descriptors.close fd }
  | .userCount change => { server with userCount := server.userCount + change }
  | .munmap _ _ => server
  | .sent _ _ => server

/-- A function of `users[fd]` has left it as `conn`. -/
def after (server : WebServer) (fd : Fd) (result : HttpConn × List Effect) : WebServer :=
  result.2.foldl perform (server.setUser fd result.1)

/-- `users[fd].close_conn()` -/
def closeUser (server : WebServer) (fd : Fd) (conn : HttpConn) : WebServer :=
  (server.after fd conn.closeConn).setLife fd .closed

/-- `pool->append(users + fd)`; what it returns is not looked at. -/
def append (setup : Setup) (server : WebServer) (fd : Fd) : WebServer :=
  if server.workqueue.length > setup.maxRequests then server
  else { server with workqueue := server.workqueue ++ [fd] }

/-- The branch of the listening descriptor. -/
def acceptBranch (setup : Setup) (server : WebServer) (connfd : Fd) : Except Fault WebServer :=
  if connfd < 0 then .ok server
  else
    let server := { server with descriptors := server.descriptors.opened connfd }
    if server.userCount ≥ maxFd then
      .ok { server with descriptors := server.descriptors.close connfd }
    else do
      let conn ← server.user connfd
      let argument := match setup.initArgument with
        | .sockfd => setup.listenfd
        | .connfd => connfd
      return (server.after connfd (conn.init argument)).setLife connfd .inUse

/-- The branch for input: `read`, and `append` or `close_conn`. -/
def inputBranch (setup : Setup) (server : WebServer) (fd : Fd) (conn : HttpConn)
    (received : List RecvResult) : WebServer :=
  let (conn, result) := conn.read received
  if result then (server.setUser fd conn).append setup fd else server.closeUser fd conn

/-- The branch for output: `write`, and `close_conn` if it returns false. -/
def outputBranch (server : WebServer) (fd : Fd) (conn : HttpConn) (written : List WritevResult) :
    Except Fault WebServer :=
  let (conn, effects, state) := conn.write written
  let server := server.after fd (conn, effects)
  match state with
  | .returned true => .ok server
  | .returned false => .ok (server.closeUser fd conn)
  | .looping _ _ => .error .outOfFuel

def dispatch (setup : Setup) (server : WebServer) (event : Event) (answers : Answers) :
    Except Fault WebServer :=
  if event.fd = setup.listenfd then server.acceptBranch setup answers.connfd
  else do
    let conn ← server.user event.fd
    if event.hangup then return server.closeUser event.fd conn
    else if event.input then return server.inputBranch setup event.fd conn answers.received
    else if event.output then server.outputBranch event.fd conn answers.written
    else return server

/-- The next event of the batch. -/
def handle (setup : Setup) (server : WebServer) (answers : Answers) : Except Fault WebServer :=
  match server.pending with
  | [] => .ok server
  | event :: rest => dispatch setup { server with pending := rest } event answers

/-- `epoll_wait` reports an event, and disarms a one-shot registration. -/
def report (server : WebServer) (event : Event) : WebServer :=
  { server with
    pending := server.pending ++ [event]
    descriptors :=
      match server.descriptors.epoll event.fd with
      | none => server.descriptors
      | some registration =>
          server.descriptors.epollAdd event.fd
            { registration with armed := registration.armed && !registration.oneShot } }

/-- The thread takes the first request of the queue. -/
def pop (server : WebServer) (worker : Nat) : WebServer :=
  match server.workqueue with
  | [] => server
  | fd :: rest => { server with workqueue := rest }.moveWorker worker (.processing fd)

/-- What follows from the result of `process_read`, up to the first call of the kernel. -/
def answer (server : WebServer) (worker : Nat) (fd : Fd) (conn : HttpConn) (readRet : HttpCode) :
    WebServer :=
  if readRet = .noRequest then (server.setUser fd conn).moveWorker worker (.rearming fd .input)
  else
    let (conn, writeRet) := conn.processWrite readRet
    let place :=
      if writeRet then .rearming fd .output
      else if conn.sockfd ≠ -1 then .deleting fd conn.sockfd
      else .closed fd
    (server.setUser fd conn).moveWorker worker place

/-- `process` of `users[fd]`, up to its first call of the kernel. -/
def process (server : WebServer) (worker : Nat) (fd : Fd) (files : FileSystem) (fuel : Nat) :
    Except Fault WebServer := do
  let conn ← server.user fd
  let (conn, readRet) ← conn.processRead files fuel
  return server.answer worker fd conn readRet

/-- The next call of the thread, or its stores at the end of `close_conn`. -/
def call (server : WebServer) (worker : Nat) : WebServer :=
  match server.workers worker with
  | .idle => server
  | .processing _ => server
  | .rearming fd interest =>
      (server.perform (.epollMod (server.users fd).sockfd interest)).moveWorker worker .idle
  | .deleting fd sockfd => (server.perform (.epollDel sockfd)).moveWorker worker (.closing fd sockfd)
  | .closing fd sockfd => (server.perform (.close sockfd)).moveWorker worker (.clearing fd)
  | .clearing fd =>
      let server := server.setUser fd { server.users fd with sockfd := -1 }
      ((server.perform (.userCount (-1))).setLife fd .closed).moveWorker worker (.closed fd)
  | .closed fd =>
      (server.perform (.epollMod (server.users fd).sockfd .output)).moveWorker worker .idle

inductive Op where
  /-- `epoll_wait` returns these events -/
  | wait (batch : List Event)
  | handle (answers : Answers)
  | pop (worker : Nat)
  | process (worker : Nat) (files : FileSystem) (fuel : Nat)
  | call (worker : Nat)

def exec (setup : Setup) (server : WebServer) : Op → Except Fault WebServer
  | .wait batch => .ok (batch.foldl report server)
  | .handle answers => server.handle setup answers
  | .pop worker => .ok (server.pop worker)
  | .process worker files fuel =>
      match server.workers worker with
      | .processing fd => server.process worker fd files fuel
      | _ => .ok server
  | .call worker => .ok (server.call worker)

/-- `epoll_wait` can report the event. -/
def Ready (server : WebServer) (event : Event) : Prop :=
  (event.hangup || event.input || event.output) = true ∧
    (server.descriptors.epoll event.fd).any (fun registration =>
      registration.armed &&
        (!event.input || decide (registration.interest = .input)) &&
        (!event.output || decide (registration.interest = .output))) = true

/-- The next event is one of the listening descriptor. -/
def Accepts (setup : Setup) (server : WebServer) : Prop :=
  server.pending.head?.map Event.fd = some setup.listenfd

/-- The operation can be the next one; `accept` returns a descriptor that is not open. -/
def Enabled (setup : Setup) (server : WebServer) : Op → Prop
  | .wait batch =>
      server.pending = [] ∧ (batch.map Event.fd).Nodup ∧ ∀ event ∈ batch, server.Ready event
  | .handle answers =>
      server.pending ≠ [] ∧
        (server.Accepts setup → server.descriptors.isOpen answers.connfd = false)
  | .pop worker =>
      worker < setup.threadNumber ∧ server.workers worker = .idle ∧ server.workqueue ≠ []
  | .process worker _ _ => (server.workers worker).isProcessing = true
  | .call worker => (server.workers worker).isCalling = true

instance (server : WebServer) (event : Event) : Decidable (server.Ready event) :=
  inferInstanceAs (Decidable (_ ∧ _))

instance (setup : Setup) (server : WebServer) : Decidable (server.Accepts setup) :=
  inferInstanceAs (Decidable (_ = _))

instance (setup : Setup) (server : WebServer) : ∀ op, Decidable (server.Enabled setup op)
  | .wait _ => inferInstanceAs (Decidable (_ ∧ _ ∧ _))
  | .handle _ => inferInstanceAs (Decidable (_ ∧ (_ → _)))
  | .pop _ => inferInstanceAs (Decidable (_ ∧ _ ∧ _))
  | .process worker _ _ =>
      inferInstanceAs (Decidable ((server.workers worker).isProcessing = true))
  | .call worker => inferInstanceAs (Decidable ((server.workers worker).isCalling = true))

/-- The server before its loop, with whatever the objects hold. -/
def start (setup : Setup) (objects : Fd → HttpConn) : WebServer where
  users := objects
  descriptors :=
    { isOpen := setup.own
      epoll := fun fd =>
        if fd = setup.listenfd then some { interest := .input, oneShot := false, armed := true }
        else none
      closes := [] }
  userCount := 0
  pending := []
  workqueue := []
  workers := fun _ => .idle
  life := fun _ => .unused

end WebServer

end HPLinuxServer.Http
