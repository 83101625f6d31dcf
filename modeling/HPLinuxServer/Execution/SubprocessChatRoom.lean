import Mathlib.Data.Int.ConditionallyCompleteOrder
import Mathlib.Order.ConditionallyCompleteLattice.Basic
import HPLinuxServer.Kernel.Descriptors

/-!
# Chat room with a process for each client

`subprocess_chat_room.cpp`: the table of users and its index by process, the branches
that follow `fork`, and the processes. Of the server's descriptors only those in the
table are kept.
-/

set_option autoImplicit false

namespace HPLinuxServer.Execution

open Kernel

/-- `struct client_data`, whose address tells one connected client from another. -/
structure ChatRoom.ClientData where
  address : Nat
  connfd : Fd
  pid : Int
  deriving DecidableEq, Repr

/-- The globals of a process that serves. -/
structure ChatRoom where
  userCount : Int
  users : Int → ChatRoom.ClientData
  subProcess : Int → Int

namespace ChatRoom

def userLimit : Int := 5

def bufferSize : Nat := 0x400

def processLimit : Int := 0xffff

/-- The table before the first client. The memory of `users` is not initialised. -/
def init (unset : Int → ChatRoom.ClientData) : ChatRoom where
  userCount := 0
  users := unset
  subProcess := fun _ => -1

/-- What is stored about a client before the call of `fork`. -/
def recordClient (room : ChatRoom) (address : Nat) (connfd : Fd) : ChatRoom :=
  { room with
    users := Function.update room.users room.userCount
      { room.users room.userCount with address, connfd } }

/-- The branch of the server after `fork`. -/
def enroll (room : ChatRoom) (pid : Int) : ChatRoom where
  userCount := room.userCount + 1
  users := Function.update room.users room.userCount { room.users room.userCount with pid }
  subProcess := Function.update room.subProcess pid room.userCount

/-- The loop's body for a child that `waitpid` returns: the last user moves to the place
of the one that is deleted. -/
def reapChild (room : ChatRoom) (pid : Int) : ChatRoom :=
  let delUser := room.subProcess pid
  let subProcess := Function.update room.subProcess pid (-1)
  if delUser < 0 ∨ delUser > userLimit then { room with subProcess }
  else
    let userCount := room.userCount - 1
    let users := Function.update room.users delUser (room.users userCount)
    { userCount, users, subProcess := Function.update subProcess (users delUser).pid delUser }

end ChatRoom

/-! ## Processes -/

/-- What a process of the program does. -/
inductive Role where
  | serving (room : ChatRoom)
  | runChild (idx : Int) (client : Nat)
  | ended

structure Process where
  pid : Int
  parent : Int
  role : Role

def Role.serves : Role → Bool
  | serving _ => true
  | runChild _ _ => false
  | ended => false

def Role.client? : Role → Option Nat
  | runChild _ client => some client
  | serving _ => none
  | ended => none

def Role.hasEnded : Role → Bool
  | ended => true
  | serving _ => false
  | runChild _ _ => false

/-- The test of what `fork` has returned, in whichever process it has. -/
def ChatRoom.afterFork (room : ChatRoom) (pid : Int) : Role :=
  if pid < 0 then .serving room
  else if pid ≠ 0 then .runChild room.userCount (room.users room.userCount).address
  else .serving (room.enroll pid)

/-- The accept branch in a process that serves, with the pid of the process that `fork`
creates. The new process has a copy of the memory, and `fork` returns 0 in it. -/
def ChatRoom.accept (room : ChatRoom) (server : Process) (address : Nat) (connfd : Fd)
    (forked : Option Int) : List Process :=
  if ChatRoom.userLimit ≤ room.userCount then [server]
  else
    let room := room.recordClient address connfd
    match forked with
    | none => [{ server with role := room.afterFork (-1) }]
    | some pid =>
        [{ server with role := room.afterFork pid },
          { pid, parent := server.pid, role := room.afterFork 0 }]

inductive ChatStep where
  /-- the serving process accepts a connection; `fork` fails or creates a process -/
  | accept (server : Int) (address : Nat) (connfd : Fd) (forked : Option Int)
  /-- a process returns from `run_child` and exits -/
  | exit (pid : Int)
  /-- `waitpid` returns the pid in the serving process -/
  | reap (server pid : Int)
  deriving DecidableEq, Repr

namespace ChatStep

/-- The pid of the process that the step creates. -/
def forked? : ChatStep → Option Int
  | accept _ _ _ forked => forked
  | exit _ => none
  | reap _ _ => none

/-- One process of the program takes a step. -/
def exec (processes : List Process) : ChatStep → List Process
  | accept server address connfd forked =>
      processes.flatMap fun process =>
        match process.role with
        | .serving room =>
            if process.pid = server then room.accept process address connfd forked
            else [process]
        | _ => [process]
  | exit pid =>
      processes.map fun process =>
        if process.pid = pid then { process with role := .ended } else process
  | reap server pid =>
      (processes.filter fun process => process.pid ≠ pid).map fun process =>
        match process.role with
        | .serving room =>
            if process.pid = server then { process with role := .serving (room.reapChild pid) }
            else process
        | _ => process

/-- A new process has a pid that nobody has, a new client an address that nobody has, and
`waitpid` returns a child of the process that has ended. -/
def Enabled (processes : List Process) : ChatStep → Prop
  | accept server address _ forked =>
      (∃ process ∈ processes, process.pid = server ∧ process.role.serves = true) ∧
        (∀ process ∈ processes, process.role.client? ≠ some address) ∧
        ∀ pid ∈ forked, 0 < pid ∧ pid < ChatRoom.processLimit ∧
          ∀ process ∈ processes, process.pid ≠ pid
  | exit pid => ∃ process ∈ processes, process.pid = pid ∧ process.role.client?.isSome = true
  | reap server pid =>
      (∃ process ∈ processes, process.pid = server ∧ process.role.serves = true) ∧
        ∃ process ∈ processes, process.pid = pid ∧ process.parent = server ∧
          process.role.hasEnded = true

instance (processes : List Process) : ∀ step, Decidable (Enabled processes step)
  | accept _ _ _ _ => inferInstanceAs (Decidable (_ ∧ _ ∧ _))
  | exit _ => inferInstanceAs (Decidable (∃ process ∈ processes, _))
  | reap _ _ => inferInstanceAs (Decidable (_ ∧ _))

end ChatStep

/-- The program when it enters its loop. -/
def ChatRoom.start (pid parent : Int) (unset : Int → ChatRoom.ClientData) : List Process :=
  [{ pid, parent, role := .serving (.init unset) }]

/-! ## The segments of the shared memory -/

/-- A process in `run_child`, which keeps the index it is called with. -/
structure RunChild where
  pid : Int
  idx : Int
  deriving DecidableEq, Repr

def Process.runChild? (process : Process) : Option RunChild :=
  match process.role with
  | .runChild idx _ => some ⟨process.pid, idx⟩
  | .serving _ => none
  | .ended => none

/-- Where the child writes what it receives. -/
def RunChild.segment (child : RunChild) : Set Int :=
  Set.Ico (child.idx * ChatRoom.bufferSize)
    (child.idx * ChatRoom.bufferSize + ChatRoom.bufferSize)

end HPLinuxServer.Execution
