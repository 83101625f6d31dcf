import HPLinuxServer.Kernel.Descriptors
import HPLinuxServer.Memory.Heap

/-!
# Chat room server

The poll table of `chatroom_server.c`: which sockets it holds, and how accepted clients
are appended and lost ones removed. The `events` asked for, the records of the clients and
the loop over the table are added where the messages are delivered.
-/

set_option autoImplicit false

namespace HPLinuxServer.Execution

open Memory Kernel

abbrev PollEvents := BitVec 16

def POLLIN : PollEvents := 0x001

def POLLERR : PollEvents := 0x008

def POLLHUP : PollEvents := 0x010

def POLLNVAL : PollEvents := 0x020

def POLLRDHUP : PollEvents := 0x2000

structure PollFd where
  fd : Fd
  revents : PollEvents
  deriving DecidableEq, Repr

/-- `revents & event` -/
def PollFd.has (entry : PollFd) (event : PollEvents) : Bool := entry.revents &&& event ≠ 0

/-- The descriptors that are open before the loop. -/
structure ChatroomSetup where
  listenfd : Fd
  own : Fd → Bool
  listenfd_own : own listenfd = true

/-- The poll table; the entries of `fds` that are not in use hold nothing that is read. -/
structure ChatroomServer where
  fds : List (Option PollFd)
  userCounter : Int
  descriptors : Descriptors Unit

namespace ChatroomServer

/-- `USER_LIMIT` -/
def userLimit : Nat := 5

/-- `fds[index]` -/
def entry (server : ChatroomServer) (index : Int) : Except Fault PollFd :=
  if 0 ≤ index ∧ index < server.fds.length then
    match server.fds[index.toNat]? with
    | some (some entry) => .ok entry
    | _ => .error .uninitialised
  else .error .outOfBounds

/-- `fds[index] = entry` -/
def storeEntry (server : ChatroomServer) (index : Int) (entry : PollFd) :
    Except Fault ChatroomServer :=
  if 0 ≤ index ∧ index < server.fds.length then
    .ok { server with fds := server.fds.set index.toNat (some entry) }
  else .error .outOfBounds

def close (server : ChatroomServer) (fd : Fd) : ChatroomServer :=
  { server with descriptors := server.descriptors.close fd }

/-- The branch for the listening socket. -/
def acceptClient (server : ChatroomServer) (connfd : Fd) : Except Fault ChatroomServer :=
  if connfd < 0 then .ok server
  else
    let server := { server with descriptors := server.descriptors.opened connfd }
    if server.userCounter ≥ (userLimit : Int) then .ok (server.close connfd)
    else
      let server := { server with userCounter := server.userCounter + 1 }
      server.storeEntry server.userCounter ⟨connfd, 0⟩

/-- A client leaves: the last entry moves to its position. The index of the loop goes
back by one with it. -/
def removeClient (server : ChatroomServer) (index : Int) (fd : Fd) :
    Except Fault (ChatroomServer × Int) := do
  let server := server.close fd
  let server ← server.storeEntry index (← server.entry server.userCounter)
  return ({ server with userCounter := server.userCounter - 1 }, index - 1)

/-- `poll(fds, user_counter + 1, -1)`, which reports these `revents`. -/
def polled (server : ChatroomServer) (revents : Nat → PollEvents) : ChatroomServer :=
  let count := (server.userCounter + 1).toNat
  { server with
    fds := (server.fds.take count).mapIdx (fun index entry =>
      entry.map fun entry => { entry with revents := revents index }) ++ server.fds.drop count }

def start (setup : ChatroomSetup) : ChatroomServer where
  fds := some ⟨setup.listenfd, 0⟩ :: List.replicate userLimit none
  userCounter := 0
  descriptors := { isOpen := setup.own, epoll := fun _ => none, closes := [] }

end ChatroomServer

end HPLinuxServer.Execution
