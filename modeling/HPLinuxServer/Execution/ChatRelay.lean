import HPLinuxServer.Execution.SubprocessChatRoom
import HPLinuxServer.Kernel.EdgeTriggered
import HPLinuxServer.Memory.Buffer

/-!
# Chat room with a process for each client: how a message travels

The loops of `run_child` and of the server for a fixed set of clients, the pipes between
them and the shared memory. A message is read into its client's segment, and the index of
the segment goes to the server and from there to every other child, which sends what it
then finds in the segment.
-/

set_option autoImplicit false

namespace HPLinuxServer.Execution

open Kernel Memory

/-- What is sent through a pipe: the index of a client, which on that occasion is about
one of the messages received. -/
structure Notice where
  client : Nat
  message : Nat
  deriving DecidableEq, Repr

/-- Where a child is in its loop. -/
inductive ChildPlace where
  /-- before its next event -/
  | waiting
  /-- it has cleared its segment, and calls `recv` -/
  | cleared
  /-- it has received, and tells the server -/
  | received (message : Nat)
  /-- it has read a notice, and sends the segment to its client -/
  | forwarding (notice : Notice)
  deriving DecidableEq, Repr

/-- The message the child is about to announce. -/
def ChildPlace.announced? : ChildPlace → Option Nat
  | received message => some message
  | waiting => none
  | cleared => none
  | forwarding _ => none

/-- The notice the child is about to act on. -/
def ChildPlace.carried? : ChildPlace → Option Notice
  | forwarding notice => some notice
  | waiting => none
  | cleared => none
  | received _ => none

inductive ServerPlace where
  | waiting
  /-- it has read a notice from the pipe of `sender`, and looks at `users[next]` -/
  | broadcasting (sender : Nat) (notice : Notice) (next : Nat)
  deriving DecidableEq, Repr

/-- A call of `send` to a client, with the message its notice was about. -/
structure Sent where
  client : Nat
  message : Nat
  bytes : List UInt8
  deriving DecidableEq, Repr

/-- What belongs to `users[i]`: the child, its segment and both ends of its pipe. -/
structure ChatUser where
  /-- `share_mem + i * BUFFER_SIZE` -/
  segment : Buffer ChatRoom.bufferSize
  /-- `users[i].pipefd[0]`, which the server reads -/
  toServer : Watch Notice
  /-- `users[i].pipefd[1]`, which the child reads -/
  toChild : Watch Notice
  place : ChildPlace

structure ChatRelay where
  userCount : Nat
  users : Nat → ChatUser
  server : ServerPlace
  /-- the messages received so far, with the clients they came from -/
  received : List (Nat × List UInt8)
  sent : List Sent

inductive RelayStep where
  /-- an event on the client's connection: `memset` of the segment -/
  | clear (child : Nat)
  /-- the `recv` after it, which may find nothing any more -/
  | recv (child : Nat) (bytes : Option (List UInt8))
  | notify (child : Nat)
  /-- the child's `epoll_wait` returns the event of its pipe -/
  | childWait (child : Nat)
  /-- the child reads one notice from its pipe -/
  | takeNotice (child : Nat)
  | forward (child : Nat)
  /-- the server's `epoll_wait` returns the events of these pipes -/
  | serverWait (batch : List Nat)
  /-- the server reads one notice from the pipe of a child -/
  | serverTake (child : Nat)
  /-- one round of the server's loop over the users -/
  | serverSend
  deriving DecidableEq, Repr

namespace ChatUser

/-- `memset` -/
def clear (user : ChatUser) : ChatUser :=
  { user with segment := .zero ChatRoom.bufferSize, place := .cleared }

/-- `recv` of the message with the given number, which may also find nothing. -/
def recv (user : ChatUser) (message : Nat) : Option (List UInt8) → ChatUser
  | none => { user with place := .waiting }
  | some bytes =>
      { user with segment := user.segment.copyIn 0 bytes, place := .received message }

/-- `send(pipefd, (char *)&idx, sizeof(idx), 0)` -/
def notify (user : ChatUser) (idx : Nat) : ChatUser :=
  match user.place.announced? with
  | some message =>
      { user with toServer := user.toServer.arrive [⟨idx, message⟩], place := .waiting }
  | none => user

def wait (user : ChatUser) : ChatUser := { user with toChild := user.toChild.report }

/-- The one `recv` for an event of the child's pipe. -/
def takeNotice (user : ChatUser) : ChatUser :=
  { user with
    toChild := user.toChild.handled 1
    place :=
      match user.toChild.waiting.head? with
      | some notice => .forwarding notice
      | none => .waiting }

end ChatUser

namespace ChatRelay

def init (userCount : Nat) (shareMem : Nat → Buffer ChatRoom.bufferSize) : ChatRelay where
  userCount
  users := fun i => { segment := shareMem i, toServer := .idle, toChild := .idle, place := .waiting }
  server := .waiting
  received := []
  sent := []

def setUser (relay : ChatRelay) (i : Nat) (user : ChatUser) : ChatRelay :=
  { relay with users := Function.update relay.users i user }

def recv (relay : ChatRelay) (child : Nat) (bytes : Option (List UInt8)) : ChatRelay :=
  { relay.setUser child ((relay.users child).recv relay.received.length bytes) with
    received := relay.received ++ (bytes.map (Prod.mk child)).toList }

/-- `send(connfd, share_mem + client * BUFFER_SIZE, BUFFER_SIZE, 0)` -/
def forward (relay : ChatRelay) (child : Nat) : ChatRelay :=
  match (relay.users child).place.carried? with
  | some notice =>
      { relay.setUser child { relay.users child with place := .waiting } with
        sent := relay.sent ++
          [⟨child, notice.message, (relay.users notice.client).segment.bytes⟩] }
  | none => relay

def serverWait (relay : ChatRelay) (batch : List Nat) : ChatRelay :=
  { relay with
    users := fun i =>
      if i ∈ batch then { relay.users i with toServer := (relay.users i).toServer.report }
      else relay.users i }

/-- The one `recv` for an event of a pipe at the server. -/
def serverTake (relay : ChatRelay) (child : Nat) : ChatRelay :=
  let user := relay.users child
  { relay.setUser child { user with toServer := user.toServer.handled 1 } with
    server :=
      match user.toServer.waiting.head? with
      | some notice => .broadcasting child notice 0
      | none => .waiting }

/-- The pipe the notice came from is left out. -/
def sendTo (relay : ChatRelay) (sender : Nat) (notice : Notice) (next : Nat) : ChatRelay :=
  if next ≠ sender then
    let user := relay.users next
    relay.setUser next { user with toChild := user.toChild.arrive [notice] }
  else relay

def serverSend (relay : ChatRelay) : ChatRelay :=
  match relay.server with
  | .broadcasting sender notice next =>
      { relay.sendTo sender notice next with
        server :=
          if next + 1 < relay.userCount then .broadcasting sender notice (next + 1)
          else .waiting }
  | .waiting => relay

def exec (relay : ChatRelay) : RelayStep → ChatRelay
  | .clear child => relay.setUser child (relay.users child).clear
  | .recv child bytes => relay.recv child bytes
  | .notify child => relay.setUser child ((relay.users child).notify child)
  | .childWait child => relay.setUser child (relay.users child).wait
  | .takeNotice child => relay.setUser child (relay.users child).takeNotice
  | .forward child => relay.forward child
  | .serverWait batch => relay.serverWait batch
  | .serverTake child => relay.serverTake child
  | .serverSend => relay.serverSend

/-- The step can be the next one. Both loops handle all events of a batch before they wait
again. -/
def Enabled (relay : ChatRelay) : RelayStep → Prop
  | .clear child => child < relay.userCount ∧ (relay.users child).place = .waiting
  | .recv child bytes =>
      child < relay.userCount ∧ (relay.users child).place = .cleared ∧
        ∀ data ∈ bytes, 1 ≤ data.length ∧ data.length ≤ ChatRoom.bufferSize - 1
  | .notify child =>
      child < relay.userCount ∧ (relay.users child).place.announced?.isSome = true
  | .childWait child =>
      child < relay.userCount ∧ (relay.users child).place = .waiting ∧
        (relay.users child).toChild.raised = true ∧ (relay.users child).toChild.reported = false
  | .takeNotice child =>
      child < relay.userCount ∧ (relay.users child).place = .waiting ∧
        (relay.users child).toChild.reported = true
  | .forward child =>
      child < relay.userCount ∧ (relay.users child).place.carried?.isSome = true
  | .serverWait batch =>
      relay.server = .waiting ∧
        (∀ i < relay.userCount, (relay.users i).toServer.reported = false) ∧
        batch ≠ [] ∧ ∀ i ∈ batch, i < relay.userCount ∧ (relay.users i).toServer.raised = true
  | .serverTake child =>
      child < relay.userCount ∧ relay.server = .waiting ∧
        (relay.users child).toServer.reported = true
  | .serverSend => relay.server ≠ .waiting

instance (relay : ChatRelay) : ∀ step, Decidable (relay.Enabled step)
  | .clear _ => inferInstanceAs (Decidable (_ ∧ _))
  | .recv _ _ => inferInstanceAs (Decidable (_ ∧ _ ∧ _))
  | .notify _ => inferInstanceAs (Decidable (_ ∧ _))
  | .childWait _ => inferInstanceAs (Decidable (_ ∧ _ ∧ _ ∧ _))
  | .takeNotice _ => inferInstanceAs (Decidable (_ ∧ _ ∧ _))
  | .forward _ => inferInstanceAs (Decidable (_ ∧ _))
  | .serverWait _ => inferInstanceAs (Decidable (_ ∧ _ ∧ _ ∧ _))
  | .serverTake _ => inferInstanceAs (Decidable (_ ∧ _ ∧ _))
  | .serverSend => inferInstanceAs (Decidable (_ ≠ _))

end ChatRelay

end HPLinuxServer.Execution
