import HPLinuxServer.Kernel.Descriptors
import Mathlib.Logic.Function.Basic

/-!
# The server of `LT_ET_in_epoll.c`

The main loop with `et`. A client is known by its place in the order in which the clients
connected; its connection has a descriptor from `accept` to `close`. No descriptor is ever
set to non-blocking, so `accept` and `recv` wait for what they are to return.
-/

set_option autoImplicit false

namespace HPLinuxServer.Execution

open Kernel

abbrev EpollEvents := BitVec 32

def EPOLLIN : EpollEvents := 0x001

def EPOLLET : EpollEvents := 0x80000000

/-- `MAX_EVENT_NUMBER` -/
def etMaxEventNumber : Nat := 1024

/-- `BUFFER_SIZE` -/
def etBufferSize : Nat := 10

/-- How the client's side of a connection ends: `recv` gives 0, or -1 with another `errno`
than EAGAIN. -/
inductive Ending where
  | endOfFile
  | error
  deriving DecidableEq, Repr

/-- What has arrived from a client: the part that `recv` has returned, and the rest. -/
structure Peer where
  taken : List UInt8 := []
  waiting : List UInt8 := []
  ending : Option Ending := none
  deriving DecidableEq, Repr

/-- All that the client has sent so far. -/
def Peer.stream (peer : Peer) : List UInt8 := peer.taken ++ peer.waiting

/-- `recv` would return at once. -/
def Peer.readable (peer : Peer) : Bool := peer.waiting ≠ [] || peer.ending.isSome

/-- `recv` returns this many bytes, or the end of the connection. -/
def Peer.gives (peer : Peer) (count : Nat) : Bool :=
  if peer.waiting ≠ [] then
    1 ≤ count ∧ count ≤ etBufferSize - 1 ∧ count ≤ peer.waiting.length
  else peer.ending.isSome

/-- An entry of `events`. -/
structure EtEvent where
  fd : Fd
  events : EpollEvents
  deriving DecidableEq, Repr

/-- `events & EPOLLIN` -/
def EtEvent.isInput (event : EtEvent) : Bool := event.events &&& EPOLLIN ≠ 0

/-- A line of output: what `recv` gave, of which the line shows the part in front of the
first NUL. -/
structure Got where
  client : Nat
  bytes : List UInt8
  deriving DecidableEq, Repr

inductive EtPlace where
  /-- in front of `epoll_wait` -/
  | waiting
  /-- in front of the next event of the batch -/
  | handling (events : List EtEvent)
  /-- in front of `recv` in the loop for `sockfd` -/
  | receiving (sockfd : Fd) (later : List EtEvent)
  deriving DecidableEq, Repr

namespace EtPlace

/-- The events of the batch that are still to come. -/
def events : EtPlace → List EtEvent
  | waiting => []
  | handling events => events
  | receiving _ later => later

def isHandling : EtPlace → Bool
  | handling _ => true
  | waiting => false
  | receiving _ _ => false

def sockfd : EtPlace → Option Fd
  | receiving sockfd _ => some sockfd
  | waiting => none
  | handling _ => none

end EtPlace

structure EtServer where
  listenfd : Fd
  descriptors : Descriptors EpollEvents
  /-- whose connection a descriptor is -/
  clientOf : Fd → Nat
  clients : List Peer
  /-- the clients that have not been accepted, in the order of `accept` -/
  backlog : List Nat
  place : EtPlace
  output : List Got

inductive EtStep where
  | connect
  | send (client : Nat) (bytes : List UInt8)
  | hangUp (client : Nat) (ending : Ending)
  | epollWait (batch : List EtEvent)
  /-- the next event; if it accepts, this is the result, `none` for -1 -/
  | next (connfd : Option Fd)
  /-- `recv` returns this many bytes, if there are any -/
  | recv (count : Nat)
  deriving DecidableEq, Repr

/-- What `addfd` asks for; edge-triggered reports are asked for where they are not enabled. -/
def addfdEvents (enableEt : Int) : EpollEvents :=
  if enableEt ≠ 1 then EPOLLIN ||| EPOLLET else EPOLLIN

namespace EtServer

/-- The server in front of its loop; these descriptors are open. -/
def start (listenfd : Fd) (own : Fd → Bool) : EtServer where
  listenfd
  descriptors :=
    { isOpen := own
      epoll := fun fd => if fd = listenfd then some (addfdEvents 1) else none
      closes := [] }
  clientOf := fun _ => 0
  clients := []
  backlog := []
  place := .waiting
  output := []

def change (server : EtServer) (client : Nat) (change : Peer → Peer) : EtServer :=
  { server with clients := server.clients.modify client change }

/-- `accept`, and `addfd` of what it returns, which fails for -1. -/
def accept (server : EtServer) (connfd : Option Fd) (later : List EtEvent) : EtServer :=
  match connfd, server.backlog with
  | some fd, client :: backlog =>
      { server with
        descriptors := (server.descriptors.opened fd).epollAdd fd (addfdEvents 1)
        clientOf := Function.update server.clientOf fd client
        backlog
        place := .handling later }
  | _, _ => { server with place := .handling later }

/-- The body of the loop of `et`, up to its first call that waits. -/
def next (server : EtServer) (connfd : Option Fd) : EtServer :=
  match server.place with
  | .handling [] => { server with place := .waiting }
  | .handling (event :: later) =>
      if event.fd = server.listenfd then server.accept connfd later
      else if event.isInput then { server with place := .receiving event.fd later }
      else { server with place := .handling later }
  | .waiting => server
  | .receiving _ _ => server

/-- `recv` for a connection, and what `et` does with the result: it closes a connection at its
end and goes on to receive from it. -/
def receive (server : EtServer) (sockfd : Fd) (later : List EtEvent) (count : Nat) (peer : Peer) :
    EtServer :=
  let client := server.clientOf sockfd
  if peer.waiting ≠ [] then
    let server := server.change client fun peer =>
      { peer with
        taken := peer.taken ++ peer.waiting.take count
        waiting := peer.waiting.drop count }
    { server with output := server.output ++ [⟨client, peer.waiting.take count⟩] }
  else
    match peer.ending with
    | some .endOfFile => { server with descriptors := server.descriptors.close sockfd }
    | some .error =>
        { server with descriptors := server.descriptors.close sockfd, place := .handling later }
    | none => server

/-- One round of the loop for `sockfd`; for a closed descriptor `recv` fails. -/
def recv (server : EtServer) (count : Nat) : EtServer :=
  match server.place with
  | .receiving sockfd later =>
      if server.descriptors.isOpen sockfd then
        match server.clients[server.clientOf sockfd]? with
        | some peer => server.receive sockfd later count peer
        | none => server
      else
        { server with descriptors := server.descriptors.close sockfd, place := .handling later }
  | .waiting => server
  | .handling _ => server

def step (server : EtServer) : EtStep → EtServer
  | .connect =>
      { server with
        clients := server.clients ++ [{}]
        backlog := server.backlog ++ [server.clients.length] }
  | .send client bytes =>
      server.change client fun peer => { peer with waiting := peer.waiting ++ bytes }
  | .hangUp client ending => server.change client fun peer => { peer with ending := some ending }
  | .epollWait batch => { server with place := .handling batch }
  | .next connfd => server.next connfd
  | .recv count => server.recv count

/-! ## What can happen -/

/-- The descriptor can be read. -/
def readable (server : EtServer) (fd : Fd) : Bool :=
  if fd = server.listenfd then server.backlog ≠ []
  else server.clients[server.clientOf fd]?.any Peer.readable

/-- The kernel reports registered descriptors that can be read, with whatever else it has to
say of them. It does so as long as they can be read, as no registration asks for EPOLLET. -/
def Reports (server : EtServer) (event : EtEvent) : Prop :=
  (server.descriptors.epoll event.fd).isSome = true ∧ server.readable event.fd = true

instance (server : EtServer) (event : EtEvent) : Decidable (server.Reports event) :=
  inferInstanceAs (Decidable (_ ∧ _))

/-- The call at which the server is returns this: `accept` when a client is there, `recv` when
there is something to receive or the connection has ended. -/
def Returns (server : EtServer) : EtStep → Prop
  | .connect => False
  | .send _ _ => False
  | .hangUp _ _ => False
  | .epollWait batch =>
      server.place = .waiting ∧ batch ≠ [] ∧ batch.length ≤ etMaxEventNumber ∧
        (batch.map EtEvent.fd).Nodup ∧ ∀ event ∈ batch, server.Reports event
  | .next connfd =>
      server.place.isHandling = true ∧
        (server.place.events.head?.any (fun event => event.fd = server.listenfd) = true →
          server.backlog ≠ []) ∧
        ∀ fd ∈ connfd, server.descriptors.isOpen fd = false
  | .recv count =>
      server.place.sockfd.any (fun sockfd => !server.descriptors.isOpen sockfd ||
        server.clients[server.clientOf sockfd]?.any fun peer => peer.gives count) = true

instance (server : EtServer) : (step : EtStep) → Decidable (server.Returns step)
  | .connect => isFalse id
  | .send _ _ => isFalse id
  | .hangUp _ _ => isFalse id
  | .epollWait _ => inferInstanceAs (Decidable (_ ∧ _ ∧ _ ∧ _ ∧ _))
  | .next _ => inferInstanceAs (Decidable (_ ∧ _ ∧ _))
  | .recv _ => inferInstanceAs (Decidable (_ = _))

/-- A client sends and hangs up only until it has hung up. -/
def Allowed (server : EtServer) : EtStep → Prop
  | .connect => True
  | .send client _ => server.clients[client]?.any (fun peer => peer.ending.isNone) = true
  | .hangUp client _ => server.clients[client]?.any (fun peer => peer.ending.isNone) = true
  | .epollWait batch => server.Returns (.epollWait batch)
  | .next connfd => server.Returns (.next connfd)
  | .recv count => server.Returns (.recv count)

instance (server : EtServer) : (step : EtStep) → Decidable (server.Allowed step)
  | .connect => inferInstanceAs (Decidable True)
  | .send _ _ => inferInstanceAs (Decidable (_ = _))
  | .hangUp _ _ => inferInstanceAs (Decidable (_ = _))
  | .epollWait batch => inferInstanceAs (Decidable (server.Returns (.epollWait batch)))
  | .next connfd => inferInstanceAs (Decidable (server.Returns (.next connfd)))
  | .recv count => inferInstanceAs (Decidable (server.Returns (.recv count)))

end EtServer

end HPLinuxServer.Execution
