import HPLinuxServer.Kernel.Descriptors
import HPLinuxServer.Refinement.Runs
import HPLinuxServer.Timer.SortTimerLstRuns

/-!
# Timeout server

`timeout_server.cpp`: an epoll loop that closes the connections of idle clients.
Each client has a timer in a sorted list; the timer and the client's entry in
`users` point to each other. What the system calls return while an event is
handled is an input of the model. A failed `accept` ends the process at its
assertion, so only descriptors are given for it.
-/

set_option autoImplicit false

namespace HPLinuxServer.Execution

open Memory Kernel Timer Refinement

def FD_LIMIT : Int := 0xffff

def TIMESLOT : Int := 5

/-- The `static int epollfd` that `cb_func` sees; `main` has its own. -/
def staticEpollfd : Fd := 0

def SIGALRM : UInt8 := 14

def SIGTERM : UInt8 := 15

/-- The descriptors that are open before the loop: those of the server and those
the process was started with. -/
structure Setup where
  listenfd : Fd
  pipefd0 : Fd
  epollfd : Fd
  own : Fd → Bool
  listenfd_own : own listenfd = true
  pipefd0_own : own pipefd0 = true
  listenfd_ne_pipefd0 : listenfd ≠ pipefd0

/-- The only callback that timers are given. -/
inductive Callback where
  | cbFunc
  deriving DecidableEq, Repr

/-- An entry of `users`; `new client_data[FD_LIMIT]` leaves its members unset. -/
structure ClientData where
  sockfd : Option Fd := none
  timer : Option Ptr := none
  deriving DecidableEq, Repr

/-- The variables of `main` besides the list. -/
structure ServerData where
  users : Fd → ClientData
  descriptors : Descriptors Unit
  timeout : Bool
  stopServer : Bool

/-- `timer_lst`, whose timers point back to entries of `users`, and the rest. -/
abbrev Server := SortTimerLst Callback Fd ServerData

namespace ServerData

/-- `users[index]` -/
def user (data : ServerData) (index : Fd) : Except Fault ClientData :=
  if 0 ≤ index ∧ index < FD_LIMIT then .ok (data.users index) else .error .outOfBounds

/-- A store into a member of `users[index]`. -/
def storeUser (data : ServerData) (index : Fd) (change : ClientData → ClientData) :
    Except Fault ServerData := do
  let user ← data.user index
  return { data with users := fun other => if other = index then change user else data.users other }

end ServerData

/-- A member that has been set. -/
def initialised {α : Type} : Option α → Except Fault α
  | none => .error .uninitialised
  | some value => .ok value

/-- `addfd(epollfd, fd)` -/
def addfd (data : ServerData) (fd : Fd) : ServerData :=
  { data with descriptors := data.descriptors.epollAdd fd () }

/-- `cb_func(&users[userData])`. The deregistration goes to the static `epollfd`,
so it reaches the epoll instance of `main` only if that has the same number. -/
def cbFunc (setup : Setup) (userData : Fd) (data : ServerData) : Except Fault ServerData := do
  let sockfd ← initialised (← data.user userData).sockfd
  let descriptors :=
    if staticEpollfd = setup.epollfd then data.descriptors.epollDel sockfd else data.descriptors
  return { data with descriptors := descriptors.close sockfd }

/-- The call of a timer's callback. -/
def callBack (setup : Setup) : Callback → Fd → ServerData → Except Fault ServerData
  | .cbFunc, userData, data => cbFunc setup userData data

def invoke (setup : Setup) : SortTimerLst.Invoke Callback Fd ServerData :=
  SortTimerLst.confined (callBack setup)

structure EpollEvent where
  fd : Fd
  epollin : Bool
  deriving DecidableEq, Repr

/-- What `recv` gives: bytes, none of them at the end of the stream, or an error,
which may be `EAGAIN`. -/
inductive Received where
  | bytes (data : List UInt8)
  | failed (eagain : Bool)
  deriving DecidableEq, Repr

/-- What `accept`, `new`, `time` and `recv` return if they are called. -/
structure Answers where
  connfd : Fd
  timer : Addr
  now : Int
  received : Received
  deriving DecidableEq, Repr

/-- The branch for the listening socket. -/
def acceptClient (setup : Setup) (fuel : Nat) (server : Server) (answers : Answers) :
    Except Fault Server := do
  let connfd := answers.connfd
  let data := { server.world with descriptors := server.world.descriptors.opened connfd }
  let data := addfd data connfd
  let data ← data.storeUser connfd fun user => { user with sockfd := some connfd }
  let data ← data.storeUser connfd fun user => { user with timer := some (some answers.timer) }
  { server with world := data }.exec (invoke setup) fuel
    (.add ⟨answers.timer, answers.now + 3 * TIMESLOT, .cbFunc, connfd⟩)

/-- The `switch` over one byte from the signal pipe. -/
def handleSignal (data : ServerData) (signal : UInt8) : ServerData :=
  if signal = SIGALRM then { data with timeout := true }
  else if signal = SIGTERM then { data with stopServer := true }
  else data

/-- The branch for the signal pipe. -/
def receiveSignals (data : ServerData) : Received → ServerData
  | .failed _ => data
  | .bytes signals => signals.foldl handleSignal data

/-- Closing a client: `cb_func(&users[sockfd])` and `del_timer` of its timer. -/
def dropClient (setup : Setup) (fuel : Nat) (server : Server) (sockfd : Fd) (timer : Ptr) :
    Except Fault Server := do
  let server := { server with world := ← cbFunc setup sockfd server.world }
  match timer with
  | none => return server
  | some timer => server.exec (invoke setup) fuel (.del timer)

/-- The branch for input from a client. -/
def receiveData (setup : Setup) (fuel : Nat) (server : Server) (sockfd : Fd) (answers : Answers) :
    Except Fault Server := do
  let timer ← initialised (← server.world.user sockfd).timer
  match answers.received with
  | .failed eagain =>
      if eagain then return server else dropClient setup fuel server sockfd timer
  | .bytes [] => dropClient setup fuel server sockfd timer
  | .bytes (_ :: _) =>
      match timer with
      | none => return server
      | some timer =>
          server.exec (invoke setup) fuel (.adjust timer (answers.now + 3 * TIMESLOT))

/-- One round of the loop over the events of a batch. -/
def handleEvent (setup : Setup) (fuel : Nat) (server : Server) (input : EpollEvent × Answers) :
    Except Fault Server :=
  let (event, answers) := input
  if event.fd = setup.listenfd then acceptClient setup fuel server answers
  else if event.fd = setup.pipefd0 ∧ event.epollin then
    .ok { server with world := receiveSignals server.world answers.received }
  else if event.epollin then receiveData setup fuel server event.fd answers
  else .ok server

/-- `timer_handler`, with `time(NULL)` returning `now`. -/
def timerHandler (setup : Setup) (fuel : Nat) (server : Server) (now : Int) :
    Except Fault Server :=
  server.exec (invoke setup) fuel (.tick now)

/-- What `epoll_wait` returns, and the time at which the batch has been handled. -/
structure Batch where
  events : List (EpollEvent × Answers)
  now : Int
  deriving DecidableEq, Repr

/-- One round of the main loop. -/
def handleBatch (setup : Setup) (fuel : Nat) (server : Server) (batch : Batch) :
    Except Fault Server := do
  let server ← runOps (handleEvent setup fuel) server batch.events
  if server.world.timeout then
    let server ← timerHandler setup fuel server batch.now
    return { server with world := { server.world with timeout := false } }
  else
    return server

/-- The main loop over the batches that `epoll_wait` returns, until it is left. -/
def serve (setup : Setup) (fuel : Nat) : Server → List Batch → Except Fault Server :=
  runOps fun server batch =>
    if server.world.stopServer then .ok server else handleBatch setup fuel server batch

/-- The state before the loop. -/
def start (setup : Setup) : Server :=
  SortTimerLst.init
    { users := fun _ => {}
      descriptors :=
        { isOpen := setup.own
          epoll := fun fd => if fd = setup.listenfd ∨ fd = setup.pipefd0 then some () else none
          closes := [] }
      timeout := false
      stopServer := false }

end HPLinuxServer.Execution
