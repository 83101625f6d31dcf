import Mathlib.Logic.Function.Basic

/-!
# The one-shot server

`epoll_oneshot.c`: the main loop, which starts a thread for each readable descriptor, and
these threads. All of them are told their descriptor through `fds_for_new_worker`, a
variable of the block that creates the thread. Behind the block its memory may hold
anything, and so may that of the next one before something is stored there.
-/

set_option autoImplicit false

namespace HPLinuxServer.Execution

/-- What the kernel knows of a descriptor. -/
inductive OneshotStatus where
  | closed
  /-- registered, and a report is still to come -/
  | armed
  /-- registered with EPOLLONESHOT, and reported -/
  | disarmed
  deriving DecidableEq, Repr

/-- An entry of `events`. -/
structure OneshotReport where
  fd : Nat
  epollin : Bool
  deriving DecidableEq, Repr

/-- `struct fds` -/
structure Fds where
  epollfd : Nat
  sockfd : Nat
  deriving DecidableEq, Repr

/-- Where the main loop is. -/
inductive MainPlace where
  /-- in front of `epoll_wait` or of the next event -/
  | looping
  /-- it has stored `epollfd` for this event, and not `sockfd` yet -/
  | storing (event : Nat)
  /-- it is about to call `pthread_create` -/
  | stored (event : Nat)
  /-- `pthread_create` has returned; the block of `fds_for_new_worker` ends here -/
  | created
  deriving DecidableEq, Repr

/-- Where a thread is. The event is the one that it was created for. -/
inductive OneshotWorker where
  | created (event : Nat)
  /-- it has read `sockfd`, and not `epollfd` yet -/
  | reading (event sockfd : Nat)
  | working (event sockfd epollfd : Nat)
  | ended
  deriving DecidableEq, Repr

/-- How `recv` of a thread ends. -/
inductive OneshotRecv where
  | endOfFile
  | again
  /-- data, or a failure other than EAGAIN: the thread calls `recv` again -/
  | other
  deriving DecidableEq, Repr

structure OneshotServer where
  listenfd : Nat
  epollfd : Nat
  status : Nat → OneshotStatus
  /-- the memory of `fds_for_new_worker` -/
  cell : Fds
  /-- the events of this batch that are still to be handled -/
  pending : List OneshotReport
  main : MainPlace
  workers : List OneshotWorker

inductive OneshotStep where
  | epollWait (batch : List OneshotReport)
  /-- the main loop takes the next event; if it accepts, this is the result -/
  | next (connfd : Option Nat)
  | storeSockfd
  /-- `pthread_create`, whose result is not looked at -/
  | create (started : Bool)
  /-- the main loop leaves the block -/
  | leave
  /-- outside the block its memory is used for something else -/
  | overwrite (contents : Fds)
  | readSockfd (worker : Nat)
  | readEpollfd (worker : Nat)
  | recv (worker : Nat) (result : OneshotRecv)
  deriving DecidableEq, Repr

namespace OneshotWorker

/-- The descriptor that the thread works on; before it has read it, the one meant for it. -/
def runsOn (fd : Nat) : OneshotWorker → Bool
  | created event => event == fd
  | reading _ sockfd => sockfd == fd
  | working _ sockfd _ => sockfd == fd
  | ended => false

/-- What the thread has read is what was meant for it. -/
def OnOwn (epollfd : Nat) : OneshotWorker → Prop
  | created _ => True
  | reading event sockfd => sockfd = event
  | working event sockfd read => sockfd = event ∧ read = epollfd
  | ended => True

def isCreated : OneshotWorker → Bool
  | created _ => true
  | reading _ _ => false
  | working _ _ _ => false
  | ended => false

def isReading : OneshotWorker → Bool
  | reading _ _ => true
  | created _ => false
  | working _ _ _ => false
  | ended => false

def isWorking : OneshotWorker → Bool
  | working _ _ _ => true
  | created _ => false
  | reading _ _ => false
  | ended => false

end OneshotWorker

namespace MainPlace

def holds (fd : Nat) : MainPlace → Bool
  | looping => false
  | storing event => event == fd
  | stored event => event == fd
  | created => false

def isStoring : MainPlace → Bool
  | storing _ => true
  | looping => false
  | stored _ => false
  | created => false

def isStored : MainPlace → Bool
  | stored _ => true
  | looping => false
  | storing _ => false
  | created => false

end MainPlace

namespace OneshotServer

/-- The server in front of its loop. -/
def init (listenfd epollfd : Nat) (leftover : Fds) : OneshotServer where
  listenfd
  epollfd
  status := fun fd => if fd = listenfd then .armed else .closed
  cell := leftover
  pending := []
  main := .looping
  workers := []

/-- All reported descriptors but the listening socket are registered as one-shot. -/
def epollWait (server : OneshotServer) (batch : List OneshotReport) : OneshotServer :=
  { server with
    pending := batch
    status := fun fd =>
      if fd ∈ batch.map OneshotReport.fd ∧ fd ≠ server.listenfd then .disarmed
      else server.status fd }

/-- `addfd` of a new connection; it fails for -1. -/
def addfd (server : OneshotServer) : Option Nat → OneshotServer
  | none => server
  | some connfd => { server with status := Function.update server.status connfd .armed }

/-- The branches of the main loop, up to the first store for a new thread. -/
def next (server : OneshotServer) (connfd : Option Nat) : OneshotServer :=
  match server.pending with
  | [] => server
  | report :: rest =>
      if report.fd = server.listenfd then { server with pending := rest }.addfd connfd
      else if report.epollin then
        { server with
          pending := rest
          cell := { server.cell with epollfd := server.epollfd }
          main := .storing report.fd }
      else { server with pending := rest }

def storeSockfd (server : OneshotServer) : OneshotServer :=
  match server.main with
  | .storing event =>
      { server with cell := { server.cell with sockfd := event }, main := .stored event }
  | .looping => server
  | .stored _ => server
  | .created => server

def create (server : OneshotServer) (started : Bool) : OneshotServer :=
  match server.main with
  | .stored event =>
      { server with
        main := .created
        workers := if started then server.workers ++ [.created event] else server.workers }
  | .looping => server
  | .storing _ => server
  | .created => server

def move (server : OneshotServer) (worker : Nat) (place : OneshotWorker) : OneshotServer :=
  { server with workers := server.workers.set worker place }

def readSockfd (server : OneshotServer) (worker : Nat) : OneshotServer :=
  match server.workers[worker]? with
  | some (.created event) => server.move worker (.reading event server.cell.sockfd)
  | _ => server

def readEpollfd (server : OneshotServer) (worker : Nat) : OneshotServer :=
  match server.workers[worker]? with
  | some (.reading event sockfd) =>
      server.move worker (.working event sockfd server.cell.epollfd)
  | _ => server

/-- `reset_oneshot`, which only concerns a registered descriptor. -/
def resetOneshot (server : OneshotServer) (epollfd fd : Nat) : OneshotServer :=
  if epollfd = server.epollfd ∧ server.status fd ≠ .closed then
    { server with status := Function.update server.status fd .armed }
  else server

def close (server : OneshotServer) (fd : Nat) : OneshotServer :=
  { server with status := Function.update server.status fd .closed }

def recv (server : OneshotServer) (worker : Nat) (result : OneshotRecv) : OneshotServer :=
  match server.workers[worker]? with
  | some (.working _ sockfd epollfd) =>
      match result with
      | .endOfFile => (server.close sockfd).move worker .ended
      | .again => (server.resetOneshot epollfd sockfd).move worker .ended
      | .other => server
  | _ => server

def exec (server : OneshotServer) : OneshotStep → OneshotServer
  | .epollWait batch => server.epollWait batch
  | .next connfd => server.next connfd
  | .storeSockfd => server.storeSockfd
  | .create started => server.create started
  | .leave => { server with main := .looping }
  | .overwrite contents => { server with cell := contents }
  | .readSockfd worker => server.readSockfd worker
  | .readEpollfd worker => server.readEpollfd worker
  | .recv worker result => server.recv worker result

/-- The thread of the step is where the step begins. The kernel reports armed descriptors,
each once in a batch, and gives a new connection a descriptor that is not in use. -/
def Enabled (server : OneshotServer) : OneshotStep → Prop
  | .epollWait batch =>
      server.main = .looping ∧ server.pending = [] ∧ (batch.map OneshotReport.fd).Nodup ∧
        ∀ report ∈ batch, server.status report.fd = .armed
  | .next connfd =>
      server.main = .looping ∧ server.pending ≠ [] ∧
        ∀ fd ∈ connfd, server.status fd = .closed
  | .storeSockfd => server.main.isStoring = true
  | .create _ => server.main.isStored = true
  | .leave => server.main = .created
  | .overwrite _ => server.main = .looping
  | .readSockfd worker => server.workers[worker]?.any OneshotWorker.isCreated = true
  | .readEpollfd worker => server.workers[worker]?.any OneshotWorker.isReading = true
  | .recv worker _ => server.workers[worker]?.any OneshotWorker.isWorking = true

instance (server : OneshotServer) : ∀ step, Decidable (server.Enabled step)
  | .epollWait _ => inferInstanceAs (Decidable (_ ∧ _ ∧ _ ∧ _))
  | .next _ => inferInstanceAs (Decidable (_ ∧ _ ∧ _))
  | .storeSockfd => inferInstanceAs (Decidable (_ = _))
  | .create _ => inferInstanceAs (Decidable (_ = _))
  | .leave => inferInstanceAs (Decidable (_ = _))
  | .overwrite _ => inferInstanceAs (Decidable (_ = _))
  | .readSockfd _ => inferInstanceAs (Decidable (_ = _))
  | .readEpollfd _ => inferInstanceAs (Decidable (_ = _))
  | .recv _ _ => inferInstanceAs (Decidable (_ = _))

/-- How many hold the descriptor: the rest of the batch, the main loop and the threads. -/
def holders (server : OneshotServer) (fd : Nat) : Nat :=
  server.pending.countP (fun report => report.fd == fd && fd != server.listenfd) +
    (server.main.holds fd).toNat + server.workers.countP (OneshotWorker.runsOn fd)

end OneshotServer

end HPLinuxServer.Execution
