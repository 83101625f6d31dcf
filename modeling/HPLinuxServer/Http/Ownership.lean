import HPLinuxServer.Http.WebServer

/-!
# Who has a connection

The web server seen from one descriptor: what the kernel knows of it, and where the object
of its number is. At any time a connection is with one of: the epoll set, the batch of the
main loop, the queue, one thread. A thread that closes it keeps the object for two more
steps, and a connection that the queue refuses is with none of them.
-/

set_option autoImplicit false

namespace HPLinuxServer.Http

open Kernel

structure View where
  sockfd : Int
  isOpen : Bool
  epoll : Option Registration
  /-- the events pending for it -/
  pending : Nat
  /-- how often it is in the queue -/
  queued : Nat
  /-- the threads that hold the object, with their places -/
  held : Nat → Option WorkerPlace

/-- No thread holds the object. -/
def nobody : Nat → Option WorkerPlace := fun _ => none

/-- The thread is the only one that holds the object. -/
def only (worker : Nat) (place : WorkerPlace) : Nat → Option WorkerPlace :=
  Function.update nobody worker (some place)

/-- The place, if it is one with the object of this number. -/
def WorkerPlace.holding (fd : Fd) (place : WorkerPlace) : Option WorkerPlace :=
  if place.object? = some fd then some place else none

/-- A one-shot registration whose event has been reported. -/
def Registration.disarmed (interest : Interest) : Registration where
  interest
  oneShot := true
  armed := false

/-- The places of a thread in `process` at which the connection is still open and
registered. -/
inductive Serving (fd : Fd) : WorkerPlace → Prop where
  | processing : Serving fd (.processing fd)
  | rearming (interest : Interest) : Serving fd (.rearming fd interest)
  | deleting : Serving fd (.deleting fd fd)

/-- What a descriptor can look like; `lost` says whether the queue may have refused one. -/
inductive Situation (setup : Setup) (lost : Prop) (fd : Fd) : View → Prop where
  | listening (same : fd = setup.listenfd) (sockfd : Int) (pending : Nat) :
      Situation setup lost fd
        ⟨sockfd, true, some { interest := .input, oneShot := false, armed := true }, pending, 0,
          nobody⟩
  /-- no connection of the epoll set -/
  | apart (other : fd ≠ setup.listenfd) (sockfd : Int) (isOpen : Bool)
      (unserved : isOpen = true → setup.own fd = true ∨ setup.initArgument = .sockfd) :
      Situation setup lost fd ⟨sockfd, isOpen, none, 0, 0, nobody⟩
  | armed (other : fd ≠ setup.listenfd) (valid : 0 ≤ fd) (interest : Interest) :
      Situation setup lost fd ⟨fd, true, some (.rearmed interest), 0, 0, nobody⟩
  | reported (other : fd ≠ setup.listenfd) (valid : 0 ≤ fd) (interest : Interest) :
      Situation setup lost fd ⟨fd, true, some (.disarmed interest), 1, 0, nobody⟩
  | queued (other : fd ≠ setup.listenfd) (valid : 0 ≤ fd) (interest : Interest) :
      Situation setup lost fd ⟨fd, true, some (.disarmed interest), 0, 1, nobody⟩
  | served (other : fd ≠ setup.listenfd) (valid : 0 ≤ fd) (interest : Interest) (worker : Nat)
      {place : WorkerPlace} (serving : Serving fd place) :
      Situation setup lost fd
        ⟨fd, true, some (.disarmed interest), 0, 0, only worker place⟩
  | closing (other : fd ≠ setup.listenfd) (valid : 0 ≤ fd) (worker : Nat) :
      Situation setup lost fd ⟨fd, true, none, 0, 0, only worker (.closing fd fd)⟩
  | clearing (other : fd ≠ setup.listenfd) (valid : 0 ≤ fd) (worker : Nat) :
      Situation setup lost fd ⟨fd, false, none, 0, 0, only worker (.clearing fd)⟩
  | closed (other : fd ≠ setup.listenfd) (valid : 0 ≤ fd) (worker : Nat) :
      Situation setup lost fd ⟨-1, false, none, 0, 0, only worker (.closed fd)⟩
  | stranded (other : fd ≠ setup.listenfd) (valid : 0 ≤ fd) (interest : Interest) (refused : lost) :
      Situation setup lost fd ⟨fd, true, some (.disarmed interest), 0, 0, nobody⟩

namespace WebServer

def view (server : WebServer) (fd : Fd) : View where
  sockfd := (server.users fd).sockfd
  isOpen := server.descriptors.isOpen fd
  epoll := server.descriptors.epoll fd
  pending := (server.pending.map Event.fd).count fd
  queued := server.workqueue.count fd
  held := fun worker => (server.workers worker).holding fd

/-! ## How the view of one descriptor changes -/

variable {server : WebServer} {fd other : Fd}

theorem view_setUser (conn : HttpConn) :
    (server.setUser fd conn).view other =
      if other = fd then { server.view other with sockfd := conn.sockfd } else server.view other := by
  unfold setUser view
  dsimp only
  rw [Function.update_apply]
  split <;> rfl

theorem view_setLife (life : Life) : (server.setLife fd life).view other = server.view other := rfl

/-- A thread moves between places with the same object, or from or to none. -/
theorem view_moveWorker (worker : Nat) (place : WorkerPlace) :
    (server.moveWorker worker place).view other =
      { server.view other with
        held := Function.update (server.view other).held worker (place.holding other) } := by
  unfold moveWorker view
  dsimp only
  congr 1
  funext index
  exact Function.apply_update (fun _ => WorkerPlace.holding other) server.workers worker place index

theorem view_epollMod (interest : Interest) :
    (server.perform (.epollMod fd interest)).view other =
      if other = fd then
        { server.view other with
          epoll := (server.view other).epoll.map fun _ => .rearmed interest }
      else server.view other := by
  unfold perform
  dsimp only
  split
  · next missing =>
      split
      · next same =>
          subst same
          unfold view
          rw [missing]
          rfl
      · rfl
  · next found =>
      obtain ⟨registration, known⟩ := Option.ne_none_iff_exists'.mp found
      unfold view
      dsimp only
      rw [Descriptors.epoll_epollAdd]
      split
      · next same =>
          rw [same, known]
          rfl
      · rfl

theorem view_epollAdd (free : server.descriptors.isOpen fd = true ∧
      server.descriptors.epoll fd = none) :
    (server.perform (.epollAdd fd)).view other =
      if other = fd then { server.view other with epoll := some (.rearmed .input) }
      else server.view other := by
  unfold perform
  dsimp only
  rw [if_pos free]
  unfold view
  dsimp only
  rw [Descriptors.epoll_epollAdd]
  split <;> rfl

theorem view_epollDel :
    (server.perform (.epollDel fd)).view other =
      if other = fd then { server.view other with epoll := none } else server.view other := by
  unfold perform view
  dsimp only
  rw [Descriptors.epoll_epollDel]
  split <;> rfl

theorem view_userCount (change : Int) :
    (server.perform (.userCount change)).view other = server.view other := rfl

theorem view_close (isOpen : server.descriptors.isOpen fd = true) :
    (server.perform (.close fd)).view other =
      if other = fd then { server.view other with isOpen := false, epoll := none }
      else server.view other := by
  unfold perform view
  dsimp only
  rw [Descriptors.epoll_close isOpen]
  unfold Descriptors.close
  dsimp only
  split
  · next same => simp [same]
  · next different => simp [different]

theorem view_opened :
    ({ server with descriptors := server.descriptors.opened fd } : WebServer).view other =
      if other = fd then { server.view other with isOpen := true } else server.view other := by
  unfold view Descriptors.opened
  dsimp only
  split
  · next same => simp [same]
  · next different => simp [different]

theorem view_init_own (unregistered : server.descriptors.epoll fd = none) (conn : HttpConn)
    (other : Fd) :
    (after { server with descriptors := server.descriptors.opened fd } fd (conn.init fd)).view
        other =
      if other = fd then
        { server.view other with
          sockfd := fd, isOpen := true, epoll := some (.rearmed .input) }
      else server.view other := by
  have free : (setUser { server with descriptors := server.descriptors.opened fd } fd
        (conn.init fd).1).descriptors.isOpen fd = true ∧
      (setUser { server with descriptors := server.descriptors.opened fd } fd
        (conn.init fd).1).descriptors.epoll fd = none :=
    ⟨by simp [setUser], unregistered⟩
  refine (view_userCount 1).trans ?_
  rw [view_epollAdd free, view_setUser, view_opened]
  split <;> rfl

/-- It is initialised with a descriptor that is registered already. -/
theorem view_init_registered {argument : Fd} (registered : server.descriptors.epoll argument ≠ none)
    (conn : HttpConn) (fd other : Fd) :
    (after { server with descriptors := server.descriptors.opened fd } fd
        (conn.init argument)).view other =
      if other = fd then { server.view other with sockfd := argument, isOpen := true }
      else server.view other := by
  have refused : perform (setUser { server with descriptors := server.descriptors.opened fd } fd
        (conn.init argument).1) (.epollAdd argument) =
      setUser { server with descriptors := server.descriptors.opened fd } fd
        (conn.init argument).1 :=
    if_neg fun free => registered free.2
  refine (view_userCount 1).trans ?_
  rw [refused, view_setUser, view_opened]
  split <;> rfl

theorem view_turnedAway :
    ({ server with descriptors := (server.descriptors.opened fd).close fd } : WebServer).view other =
      if other = fd then { server.view other with isOpen := false, epoll := none }
      else server.view other := by
  have opened : ({ server with descriptors := server.descriptors.opened fd } :
      WebServer).descriptors.isOpen fd = true := by simp
  refine (view_close opened).trans ?_
  rw [view_opened]
  split <;> rfl

theorem view_pick {event : Event} {rest : List Event} (batch : server.pending = event :: rest) :
    server.view other =
      let left := ({ server with pending := rest } : WebServer).view other
      if other = event.fd then { left with pending := left.pending + 1 } else left := by
  unfold view
  dsimp only
  rw [batch, List.map_cons]
  by_cases same : other = event.fd
  · rw [if_pos same, same, List.count_cons_self]
  · rw [if_neg same, List.count_cons_of_ne (Ne.symm same)]

theorem view_report (event : Event) :
    (server.report event).view other =
      if other = event.fd then
        { server.view other with
          pending := (server.view other).pending + 1
          epoll := (server.view other).epoll.map fun registration =>
            { registration with armed := registration.armed && !registration.oneShot } }
      else server.view other := by
  unfold report view
  dsimp only
  rw [List.map_append, List.count_append, List.map_singleton]
  by_cases same : other = event.fd
  · rw [if_pos same, same, List.count_singleton_self]
    cases known : server.descriptors.epoll event.fd with
    | none => simp [known]
    | some registration => simp
  · rw [if_neg same, List.count_eq_zero_of_not_mem (mt List.mem_singleton.mp same)]
    cases server.descriptors.epoll event.fd with
    | none => rfl
    | some registration => simp [same]

theorem view_push :
    ({ server with workqueue := server.workqueue ++ [fd] } : WebServer).view other =
      if other = fd then { server.view other with queued := (server.view other).queued + 1 }
      else server.view other := by
  unfold view
  dsimp only
  rw [List.count_append]
  by_cases same : other = fd
  · rw [if_pos same, same, List.count_singleton_self]
  · rw [if_neg same, List.count_eq_zero_of_not_mem (mt List.mem_singleton.mp same)]
    rfl

theorem view_take {rest : List Fd} (queue : server.workqueue = fd :: rest) :
    server.view other =
      let left := ({ server with workqueue := rest } : WebServer).view other
      if other = fd then { left with queued := left.queued + 1 } else left := by
  unfold view
  dsimp only
  rw [queue]
  by_cases same : other = fd
  · rw [if_pos same, same, List.count_cons_self]
  · rw [if_neg same, List.count_cons_of_ne (Ne.symm same)]

/-- The view of the object that a thread has popped shows the thread. -/
theorem held_of_worker {worker : Nat} {place : WorkerPlace}
    (at_place : server.workers worker = place) (object : place.object? = some fd) :
    (server.view fd).held worker = some place := by
  unfold view WorkerPlace.holding
  dsimp only
  rw [at_place, if_pos object]

end WebServer

end HPLinuxServer.Http
