import Mathlib.Logic.Function.Basic
import HPLinuxServer.Execution.TimeoutServerProperties
import HPLinuxServer.Kernel.SignalPipe

/-!
# Timeout server: alarms and signals

The main loop of `timeout_server.cpp` in small steps, between which the kernel runs: the
clock, `alarm`, signals that are pending, the handler that writes them into the pipe, and
`epoll_wait`. The clients' data are an input. Next to the server runs the set of clients
that it is for.
-/

set_option autoImplicit false

namespace HPLinuxServer.Execution

open Memory Kernel Timer Scheduling Refinement

/-- Where the main loop is. -/
inductive LoopPlace where
  /-- in `epoll_wait` -/
  | polling
  /-- with the events that it has not handled yet -/
  | handling (events : List EpollEvent)
  /-- behind the loop -/
  | left
  deriving DecidableEq, Repr

/-- What the loop shares with the kernel. -/
structure EventLoop where
  place : LoopPlace
  /-- `pipefd`, and the signals that have not reached `sig_handler` -/
  inbox : SignalPipe UInt8
  /-- `sig_handler` has run in this call of `epoll_wait` -/
  interrupted : Bool
  /-- when the kernel sends SIGALRM -/
  alarm : Option Int
  clock : Int
  /-- when a connection was accepted or has last sent something -/
  heard : Fd → Int

inductive LoopStep where
  /-- somebody sends a signal to the server -/
  | signal (signal : UInt8)
  /-- the alarm clock has run down -/
  | expire
  /-- a pending signal reaches `sig_handler` -/
  | deliver (signal : UInt8)
  /-- a second passes -/
  | second
  /-- `epoll_wait` returns; without events if it was interrupted -/
  | poll (events : List EpollEvent)
  /-- the next event is handled -/
  | event (answers : Answers)
  /-- behind the last event -/
  | finish
  deriving DecidableEq, Repr

namespace EventLoop

def start (now : Int) : EventLoop where
  place := .polling
  inbox := .empty
  interrupted := false
  alarm := some (now + TIMESLOT)
  clock := now
  heard := fun _ => now

/-- The event that is handled next. -/
def next (loop : EventLoop) : Option EpollEvent :=
  match loop.place with
  | .polling => none
  | .handling events => events.head?
  | .left => none

/-- What `recv` from `pipefd[0]` gives. -/
def signals (loop : EventLoop) : Received :=
  match loop.inbox.received with
  | [] => .failed true
  | signal :: signals => .bytes (signal :: signals)

/-- What the calls return while the event is handled. -/
def answersFor (setup : Setup) (loop : EventLoop) (event : EpollEvent) (answers : Answers) :
    Answers :=
  { answers with
    now := loop.clock
    received := if event.fd = setup.pipefd0 then loop.signals else answers.received }

def poll (setup : Setup) (loop : EventLoop) (events : List EpollEvent) : EventLoop :=
  { loop with
    place := .handling events
    interrupted := false
    inbox := if setup.pipefd0 ∈ events.map EpollEvent.fd then loop.inbox.report else loop.inbox }

/-- Something of this event's connection has been heard. -/
def hear (setup : Setup) (loop : EventLoop) (event : EpollEvent) (answers : Answers) : Fd → Int :=
  if event.fd = setup.listenfd then Function.update loop.heard answers.connfd loop.clock
  else if event.fd = setup.pipefd0 ∧ event.epollin then loop.heard
  else if event.epollin then
    match answers.received with
    | .bytes (_ :: _) => Function.update loop.heard event.fd loop.clock
    | _ => loop.heard
  else loop.heard

/-- An event has been handled. -/
def handled (setup : Setup) (loop : EventLoop) (event : EpollEvent) (events : List EpollEvent)
    (answers : Answers) : EventLoop :=
  { loop with
    place := .handling events
    inbox := if event.fd = setup.pipefd0 ∧ event.epollin then loop.inbox.receive else loop.inbox
    heard := loop.hear setup event answers }

/-- A round of the loop is over. `timer_handler` has set the alarm if it was called. -/
def finished (loop : EventLoop) (timeout stopServer : Bool) : EventLoop :=
  { loop with
    place := if stopServer then .left else .polling
    alarm := if timeout then some (loop.clock + TIMESLOT) else loop.alarm }

/-- What the kernel does by itself. -/
def kernel (capacity : Nat) (loop : EventLoop) : LoopStep → EventLoop
  | .signal signal => { loop with inbox := loop.inbox.raise signal }
  | .expire => { loop with inbox := loop.inbox.raise SIGALRM, alarm := none }
  | .deliver signal =>
      { loop with
        inbox := loop.inbox.deliver capacity signal
        interrupted := loop.interrupted || decide (loop.place = .polling) }
  | .second => { loop with clock := loop.clock + 1 }
  | .poll _ => loop
  | .event _ => loop
  | .finish => loop

end EventLoop

/-- The server in its loop. -/
structure LoopingServer where
  server : Server
  loop : EventLoop

namespace LoopingServer

def start (setup : Setup) (now : Int) : LoopingServer where
  server := Execution.start setup
  loop := .start now

/-- `if (timeout)` -/
def handleTimeout (setup : Setup) (fuel : Nat) (server : Server) (now : Int) :
    Except Fault Server :=
  if server.world.timeout then do
    let server ← timerHandler setup fuel server now
    return { server with world := { server.world with timeout := false } }
  else .ok server

/-- The end of a round. -/
def finish (setup : Setup) (fuel : Nat) (looping : LoopingServer) :
    Except Fault LoopingServer := do
  let server ← handleTimeout setup fuel looping.server looping.loop.clock
  return ⟨server, looping.loop.finished looping.server.world.timeout server.world.stopServer⟩

def exec (setup : Setup) (capacity fuel : Nat) (looping : LoopingServer) :
    LoopStep → Except Fault LoopingServer
  | .poll events => .ok { looping with loop := looping.loop.poll setup events }
  | .event answers =>
      match looping.loop.place with
      | .handling (event :: events) => do
          let answers := looping.loop.answersFor setup event answers
          let server ← handleEvent setup fuel looping.server (event, answers)
          return ⟨server, looping.loop.handled setup event events answers⟩
      | _ => .ok looping
  | .finish => looping.finish setup fuel
  | step => .ok { looping with loop := looping.loop.kernel capacity step }

end LoopingServer

/-- The clients next to the same loop. -/
structure LoopingClients where
  state : Clients
  loop : EventLoop

namespace LoopingClients

def start (now : Int) : LoopingClients where
  state := { clock := now }
  loop := .start now

def finish (looping : LoopingClients) : LoopingClients :=
  let state :=
    if looping.state.timeout then
      { looping.state.timerHandler looping.loop.clock with timeout := false }
    else looping.state
  ⟨state, looping.loop.finished looping.state.timeout state.stopServer⟩

def exec (setup : Setup) (capacity : Nat) (looping : LoopingClients) : LoopStep → LoopingClients
  | .poll events => { looping with loop := looping.loop.poll setup events }
  | .event answers =>
      match looping.loop.place with
      | .handling (event :: events) =>
          let answers := looping.loop.answersFor setup event answers
          ⟨looping.state.handleEvent setup (event, answers),
            looping.loop.handled setup event events answers⟩
      | _ => looping
  | .finish => looping.finish
  | .second =>
      ⟨{ looping.state with clock := looping.loop.clock + 1 },
        looping.loop.kernel capacity .second⟩
  | step => { looping with loop := looping.loop.kernel capacity step }

/-- The step can be the next one: signals that have a handler, an alarm that has run down,
events for watched descriptors, and answers as the kernel and `new` give them. -/
def Enabled (setup : Setup) (looping : LoopingClients) : LoopStep → Prop
  | .signal signal => signal = SIGALRM ∨ signal = SIGTERM
  | .expire => ∃ due ∈ looping.loop.alarm, due ≤ looping.loop.clock
  | .deliver signal => signal ∈ looping.loop.inbox.pending
  | .second => True
  | .poll events =>
      looping.loop.place = .polling ∧ (events.map EpollEvent.fd).Nodup ∧
        (∀ event ∈ events, looping.state.Watched setup event.fd) ∧
        ∀ event ∈ events, event.fd = setup.pipefd0 →
          event.epollin = true ∧ looping.loop.inbox.pipe.raised = true
  | .event answers =>
      ∃ event ∈ looping.loop.next, looping.state.AnswersAllowed setup
        (event, looping.loop.answersFor setup event answers)
  | .finish => looping.loop.place = .handling []

instance (setup : Setup) (looping : LoopingClients) :
    ∀ step, Decidable (looping.Enabled setup step)
  | .signal _ => inferInstanceAs (Decidable (_ ∨ _))
  | .expire => inferInstanceAs (Decidable (∃ due ∈ looping.loop.alarm, _))
  | .deliver signal => inferInstanceAs (Decidable (signal ∈ looping.loop.inbox.pending))
  | .second => inferInstanceAs (Decidable True)
  | .poll _ => inferInstanceAs (Decidable (_ ∧ _ ∧ _ ∧ _))
  | .event _ => inferInstanceAs (Decidable (∃ event ∈ looping.loop.next, _))
  | .finish => inferInstanceAs (Decidable (_ = _))

/-- `accept` succeeds, and there is an entry of `users` for its descriptor. -/
def InTable (setup : Setup) (looping : LoopingClients) : LoopStep → Prop
  | .event answers => ∀ event ∈ looping.loop.next, event.fd = setup.listenfd →
      0 ≤ answers.connfd ∧ answers.connfd < FD_LIMIT
  | .signal _ => True
  | .expire => True
  | .deliver _ => True
  | .second => True
  | .poll _ => True
  | .finish => True

instance (setup : Setup) (looping : LoopingClients) :
    ∀ step, Decidable (looping.InTable setup step)
  | .event _ => inferInstanceAs (Decidable (∀ event ∈ looping.loop.next, _))
  | .signal _ => inferInstanceAs (Decidable True)
  | .expire => inferInstanceAs (Decidable True)
  | .deliver _ => inferInstanceAs (Decidable True)
  | .second => inferInstanceAs (Decidable True)
  | .poll _ => inferInstanceAs (Decidable True)
  | .finish => inferInstanceAs (Decidable True)

/-- `sig_handler` finds room in the pipe. -/
def Reliable (capacity : Nat) (looping : LoopingClients) : LoopStep → Prop
  | .deliver _ => looping.loop.inbox.pipe.waiting.length < capacity
  | .signal _ => True
  | .expire => True
  | .second => True
  | .poll _ => True
  | .event _ => True
  | .finish => True

instance (capacity : Nat) (looping : LoopingClients) :
    ∀ step, Decidable (looping.Reliable capacity step)
  | .deliver _ => inferInstanceAs (Decidable (_ < _))
  | .signal _ => inferInstanceAs (Decidable True)
  | .expire => inferInstanceAs (Decidable True)
  | .second => inferInstanceAs (Decidable True)
  | .poll _ => inferInstanceAs (Decidable True)
  | .event _ => inferInstanceAs (Decidable True)
  | .finish => inferInstanceAs (Decidable True)

end LoopingClients

end HPLinuxServer.Execution
