import HPLinuxServer.Execution.ChatroomServer
import HPLinuxServer.Memory.Buffer
import HPLinuxServer.Messaging.Mailboxes

/-!
# Chat room server: what the clients are sent

The rest of `chatroom_server.c`: over the poll table, the `events` asked for and the records
of the clients. A message stays in the buffer of its sender, and the record of a receiver has
a pointer to it. One operation is a call of `poll` or a round of the loop over the table. Who
came, wrote, was sent something and left is recorded in the order in which it happened.
-/

set_option autoImplicit false

namespace HPLinuxServer.Execution

open Memory Kernel Messaging

def POLLOUT : PollEvents := 0x004

/-- `BUFFER_SIZE` -/
def chatBufferSize : Nat := 64

/-- `FD_LIMIT` -/
def chatFdLimit : Nat := 65535

/-- The pointer `write_buf`: what `malloc` left there, null, or the `buf` of a record. -/
inductive WriteBuf where
  | indeterminate
  | null
  | buf (fd : Fd)
  deriving DecidableEq, Repr

/-- `client_data` without the address. A `buf` that nothing was stored to holds nothing. -/
structure Chatroom.ClientData where
  writeBuf : WriteBuf
  buf : Option (Buffer chatBufferSize)
  deriving DecidableEq, Repr

structure Chatroom where
  table : ChatroomServer
  /-- the `events` of the entries of `fds` -/
  events : Nat → PollEvents
  users : Fd → Chatroom.ClientData
  /-- the `i` of the loop -/
  index : Int
  log : List (Event Fd UInt8)

/-- What the calls of one round return, if they are made: `accept`; `recv`, where `none` is
-1; and whether `errno` is EAGAIN. -/
structure RoundResults where
  connfd : Fd
  received : Option Text
  eagain : Bool
  deriving DecidableEq, Repr

inductive RoomOp where
  | poll (revents : Nat → PollEvents)
  | round (results : RoundResults)

/-- The bytes that `recv` has room for. -/
def RoundResults.bytes (results : RoundResults) : Option Text :=
  results.received.map (List.take (chatBufferSize - 1))

namespace Chatroom

/-- `users[fd]` -/
def user (room : Chatroom) (fd : Fd) : Except Fault ClientData :=
  if 0 ≤ fd ∧ fd < chatFdLimit then .ok (room.users fd) else .error .outOfBounds

def setUser (room : Chatroom) (fd : Fd) (client : ClientData) : Chatroom :=
  { room with users := fun other => if other = fd then client else room.users other }

/-- `users[fd] = client` -/
def storeUser (room : Chatroom) (fd : Fd) (client : ClientData) : Except Fault Chatroom :=
  if 0 ≤ fd ∧ fd < chatFdLimit then .ok (room.setUser fd client) else .error .outOfBounds

/-- `fds[index].events = events` -/
def storeEvents (room : Chatroom) (index : Nat) (events : PollEvents) : Chatroom :=
  { room with events := fun other => if other = index then events else room.events other }

def record (room : Chatroom) (event : Event Fd UInt8) : Chatroom :=
  { room with log := room.log ++ [event] }

/-- The branch for the listening socket. A client that is sent away is none of the room. -/
def acceptClient (room : Chatroom) (connfd : Fd) : Except Fault Chatroom := do
  let table ← room.table.acceptClient connfd
  if connfd < 0 ∨ room.table.userCounter ≥ (ChatroomServer.userLimit : Int) then
    return { room with table }
  else
    let room ← room.storeUser connfd (← room.user connfd)
    let room := { room with table }
    return (room.storeEvents table.userCounter.toNat (POLLIN ||| POLLRDHUP ||| POLLERR)).record
      (.joined connfd)

/-- The branches in which a client leaves: its record becomes a copy of the last one's. -/
def removeClient (room : Chatroom) (fd : Fd) : Except Fault Chatroom := do
  let last ← room.table.entry room.table.userCounter
  let room ← room.storeUser fd (← room.user last.fd)
  let (table, index) ← room.table.removeClient room.index fd
  let events := room.events room.table.userCounter.toNat
  return ({ (room.storeEvents room.index.toNat events) with table, index }).record (.left fd)

/-- The loop over the other clients, from position `index` on. -/
def broadcast (room : Chatroom) (connfd : Fd) (index : Nat) : Nat → Except Fault Chatroom
  | 0 => .ok room
  | rounds + 1 => do
      let entry ← room.table.entry index
      if entry.fd = connfd then room.broadcast connfd (index + 1) rounds
      else
        let room := room.storeEvents index (room.events index ||| ~~~POLLIN ||| POLLOUT)
        let client ← room.user entry.fd
        let room ← room.storeUser entry.fd { client with writeBuf := .buf connfd }
        room.broadcast connfd (index + 1) rounds

/-- The branch for a client with input. What follows `ret = 0` is never done. -/
def receive (room : Chatroom) (connfd : Fd) (results : RoundResults) : Except Fault Chatroom := do
  let client ← room.user connfd
  let buf := Buffer.zero chatBufferSize
  let room ← room.storeUser connfd { client with buf := some buf }
  match results.bytes with
  | none => if results.eagain then return room else room.removeClient connfd
  | some bytes => do
      let client ← room.user connfd
      let room ← room.storeUser connfd { client with buf := some (buf.copyIn 0 bytes) }
      (room.record (.posted connfd bytes)).broadcast connfd 1 room.table.userCounter.toNat

/-- The string at `write_buf`. -/
def pendingText (room : Chatroom) (sender : Fd) : Except Fault Text := do
  match (← room.user sender).buf with
  | none => .error .uninitialised
  | some buf => buf.text 0

/-- The branch for a client that can be written to. How much `send` takes is not looked at. -/
def write (room : Chatroom) (connfd : Fd) : Except Fault Chatroom := do
  let client ← room.user connfd
  match client.writeBuf with
  | .indeterminate => .error .uninitialised
  | .null => return room.record (.handed connfd [])
  | .buf sender => do
      let text ← room.pendingText sender
      let room := room.record (.handed connfd text)
      let room ← room.storeUser connfd { client with writeBuf := .null }
      let index := room.index.toNat
      return room.storeEvents index (room.events index ||| ~~~POLLOUT ||| POLLIN)

/-- The body of the loop over the table. -/
def dispatch (setup : ChatroomSetup) (room : Chatroom) (results : RoundResults) :
    Except Fault Chatroom := do
  let entry ← room.table.entry room.index
  if entry.fd = setup.listenfd ∧ entry.has POLLIN then room.acceptClient results.connfd
  else if entry.has POLLERR then return room
  else if entry.has POLLRDHUP then room.removeClient entry.fd
  else if entry.has POLLIN then room.receive entry.fd results
  else if entry.has POLLOUT then room.write entry.fd
  else return room

/-- `poll` has returned, and the loop over the table starts. -/
def polled (room : Chatroom) (revents : Nat → PollEvents) : Chatroom :=
  { room with
    table := room.table.polled revents
    index := 0 }

def step (setup : ChatroomSetup) (room : Chatroom) : RoomOp → Except Fault Chatroom
  | .poll revents => .ok (room.polled revents)
  | .round results => do
      let room ← room.dispatch setup results
      return { room with index := room.index + 1 }

/-- The room before the first call of `poll`. -/
def start (setup : ChatroomSetup) : Chatroom where
  table := ChatroomServer.start setup
  events := fun index => if index = 0 then POLLIN ||| POLLERR else 0
  users := fun _ => ⟨.indeterminate, none⟩
  index := 1
  log := []

end Chatroom

end HPLinuxServer.Execution
