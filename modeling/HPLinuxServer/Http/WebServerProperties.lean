import HPLinuxServer.Http.HttpConnResources
import HPLinuxServer.Http.Ownership

/-!
# Ownership of the web server's connections

Each step moves at most one connection from one owner to the next, so from the view of
every descriptor the server stays in one of the situations. The exception is a descriptor
that `accept` gives out again while the thread that has closed it still uses the object.
-/

set_option autoImplicit false

namespace HPLinuxServer.Http

open Memory Kernel Refinement

/-! ## Situations -/

section Situations

variable {setup : Setup} {fd : Fd} {lost : Prop} {view : View}

theorem only_eq_some {worker index : Nat} {place found : WorkerPlace}
    (held : only worker place index = some found) : index = worker ∧ found = place := by
  unfold only at held
  rw [Function.update_apply] at held
  split at held
  · next same => exact ⟨same, (Option.some.inj held).symm⟩
  · cases held

theorem update_nobody (worker : Nat) (place : WorkerPlace) :
    Function.update nobody worker (some place) = only worker place := rfl

theorem update_only (worker : Nat) (place : WorkerPlace) (next : Option WorkerPlace) :
    Function.update (only worker place) worker next = Function.update nobody worker next :=
  Function.update_idem ..

theorem nobody_moved (worker : Nat) : Function.update nobody worker none = nobody :=
  Function.update_eq_self (f := nobody) worker

/-- The main loop picks an event that is pending for the descriptor. -/
theorem Situation.pick
    (situation : Situation setup lost fd { view with pending := view.pending + 1 }) :
    (fd = setup.listenfd ∧ Situation setup lost fd view) ∨
      (fd ≠ setup.listenfd ∧ 0 ≤ fd ∧
        ∃ interest, view = ⟨fd, true, some (.disarmed interest), 0, 0, nobody⟩) := by
  obtain ⟨sockfd, isOpen, epoll, pending, queued, held⟩ := view
  cases situation with
  | listening same => exact .inl ⟨same, .listening same _ _⟩
  | reported other valid interest => exact .inr ⟨other, valid, interest, rfl⟩

theorem Situation.take
    (situation : Situation setup lost fd { view with queued := view.queued + 1 }) :
    fd ≠ setup.listenfd ∧ 0 ≤ fd ∧
      ∃ interest, view = ⟨fd, true, some (.disarmed interest), 0, 0, nobody⟩ := by
  obtain ⟨sockfd, isOpen, epoll, pending, queued, held⟩ := view
  cases situation with
  | queued other valid interest => exact ⟨other, valid, interest, rfl⟩

/-- The situations of an object that a thread holds. -/
inductive Holding (setup : Setup) (fd : Fd) (worker : Nat) (place : WorkerPlace) : View → Prop where
  | served (other : fd ≠ setup.listenfd) (valid : 0 ≤ fd) (interest : Interest)
      (serving : Serving fd place) :
      Holding setup fd worker place
        ⟨fd, true, some (.disarmed interest), 0, 0, only worker place⟩
  | closing (other : fd ≠ setup.listenfd) (valid : 0 ≤ fd) (here : place = .closing fd fd) :
      Holding setup fd worker place ⟨fd, true, none, 0, 0, only worker place⟩
  | clearing (other : fd ≠ setup.listenfd) (valid : 0 ≤ fd) (here : place = .clearing fd) :
      Holding setup fd worker place ⟨fd, false, none, 0, 0, only worker place⟩
  | closed (other : fd ≠ setup.listenfd) (valid : 0 ≤ fd) (here : place = .closed fd) :
      Holding setup fd worker place ⟨-1, false, none, 0, 0, only worker place⟩

theorem Situation.of_held (situation : Situation setup lost fd view) {worker : Nat}
    {place : WorkerPlace} (held : view.held worker = some place) :
    Holding setup fd worker place view := by
  cases situation with
  | served other valid interest _ serving =>
      obtain ⟨rfl, rfl⟩ := only_eq_some held
      exact .served other valid interest serving
  | closing other valid =>
      obtain ⟨rfl, rfl⟩ := only_eq_some held
      exact .closing other valid rfl
  | clearing other valid =>
      obtain ⟨rfl, rfl⟩ := only_eq_some held
      exact .clearing other valid rfl
  | closed other valid =>
      obtain ⟨rfl, rfl⟩ := only_eq_some held
      exact .closed other valid rfl
  | listening => cases held
  | apart => cases held
  | armed => cases held
  | reported => cases held
  | queued => cases held
  | stranded => cases held

theorem Serving.object {place : WorkerPlace} (serving : Serving fd place) :
    place.object? = some fd := by
  cases serving <;> rfl

theorem Holding.of_serving {worker : Nat} {place : WorkerPlace}
    (held : Holding setup fd worker place view) (serving : Serving fd place) :
    fd ≠ setup.listenfd ∧ 0 ≤ fd ∧
      ∃ interest, view = ⟨fd, true, some (.disarmed interest), 0, 0, only worker place⟩ := by
  cases held with
  | served other valid interest => exact ⟨other, valid, interest, rfl⟩
  | closing _ _ here =>
      cases here
      cases serving
  | clearing _ _ here =>
      cases here
      cases serving
  | closed _ _ here =>
      cases here
      cases serving

theorem Holding.of_deleting {worker : Nat} {object sockfd : Fd}
    (held : Holding setup fd worker (.deleting object sockfd) view) :
    sockfd = fd ∧ Serving fd (.deleting object sockfd) := by
  cases held with
  | served _ _ _ serving =>
      cases serving
      exact ⟨rfl, .deleting⟩
  | closing _ _ here => cases here
  | clearing _ _ here => cases here
  | closed _ _ here => cases here

theorem Holding.of_closing {worker : Nat} {object sockfd : Fd}
    (held : Holding setup fd worker (.closing object sockfd) view) :
    sockfd = fd ∧ fd ≠ setup.listenfd ∧ 0 ≤ fd ∧
      view = ⟨fd, true, none, 0, 0, only worker (.closing fd fd)⟩ := by
  cases held with
  | served _ _ _ serving => cases serving
  | closing other valid here =>
      cases here
      exact ⟨rfl, other, valid, rfl⟩
  | clearing _ _ here => cases here
  | closed _ _ here => cases here

theorem Holding.of_clearing {worker : Nat} {object : Fd}
    (held : Holding setup fd worker (.clearing object) view) :
    fd ≠ setup.listenfd ∧ 0 ≤ fd ∧ view = ⟨fd, false, none, 0, 0, only worker (.clearing fd)⟩ := by
  cases held with
  | served _ _ _ serving => cases serving
  | closing _ _ here => cases here
  | clearing other valid here =>
      cases here
      exact ⟨other, valid, rfl⟩
  | closed _ _ here => cases here

theorem Holding.of_closed {worker : Nat} {object : Fd}
    (held : Holding setup fd worker (.closed object) view) :
    fd ≠ setup.listenfd ∧ view = ⟨-1, false, none, 0, 0, only worker (.closed fd)⟩ := by
  cases held with
  | served _ _ _ serving => cases serving
  | closing _ _ here => cases here
  | clearing _ _ here => cases here
  | closed other valid here =>
      cases here
      exact ⟨other, rfl⟩

theorem only_released (worker : Nat) (place : WorkerPlace) :
    Function.update (only worker place) worker (WorkerPlace.idle.holding fd) = nobody :=
  (update_only ..).trans (nobody_moved worker)

theorem only_moved (worker : Nat) (place : WorkerPlace) {next : WorkerPlace}
    (object : next.object? = some fd) :
    Function.update (only worker place) worker (next.holding fd) = only worker next := by
  have holding : next.holding fd = some next := if_pos object
  rw [holding, update_only, update_nobody]

end Situations

namespace WebServer

variable {setup : Setup} {server after : WebServer} {fd : Fd} {lost : Prop}

/-- Every descriptor is in one of the situations. -/
def Sound (setup : Setup) (lost : Prop) (server : WebServer) : Prop :=
  ∀ fd, Situation setup lost fd (server.view fd)

variable (fd) in
/-- A step that only concerns `fd`. -/
theorem Sound.step (sound : Sound setup lost server)
    (frame : ∀ other, other ≠ fd → after.view other = server.view other)
    (here : Situation setup lost fd (after.view fd)) : Sound setup lost after := by
  intro other
  by_cases same : other = fd
  · rw [same]
    exact here
  · rw [frame other same]
    exact sound other

theorem sound_start (setup : Setup) (lost : Prop) (objects : Fd → HttpConn) :
    Sound setup lost (start setup objects) := by
  intro fd
  unfold view start
  dsimp only
  by_cases same : fd = setup.listenfd
  · rw [if_pos same, same, setup.listenfd_own]
    exact .listening rfl _ 0
  · rw [if_neg same]
    exact .apart same _ _ .inl

/-! ## Reports -/

theorem sound_report (sound : Sound setup lost server) {event : Event}
    {registration : Registration}
    (registered : server.descriptors.epoll event.fd = some registration)
    (armed : registration.armed = true) : Sound setup lost (server.report event) := by
  refine sound.step _ (fun other different => (view_report event).trans (if_neg different)) ?_
  rw [view_report, if_pos rfl]
  have situation := sound event.fd
  have known : (server.view event.fd).epoll = some registration := registered
  generalize server.view event.fd = view at situation known ⊢
  cases situation with
  | listening same sockfd pending => exact .listening same sockfd (pending + 1)
  | armed other valid interest => exact .reported other valid interest
  | apart => cases known
  | closing => cases known
  | clearing => cases known
  | closed => cases known
  | reported =>
      cases known
      cases armed
  | queued =>
      cases known
      cases armed
  | served =>
      cases known
      cases armed
  | stranded =>
      cases known
      cases armed

theorem epoll_report_of_ne {event : Event} {other : Fd} (different : other ≠ event.fd) :
    (server.report event).descriptors.epoll other = server.descriptors.epoll other :=
  congrArg View.epoll ((view_report event).trans (if_neg different))

theorem sound_wait (sound : Sound setup lost server) {batch : List Event}
    (distinct : (batch.map Event.fd).Nodup) (ready : ∀ event ∈ batch, server.Ready event) :
    Sound setup lost (batch.foldl report server) := by
  have armed : ∀ event ∈ batch, ∃ registration,
      server.descriptors.epoll event.fd = some registration ∧ registration.armed = true :=
    fun event member => by
      obtain ⟨registration, registered, armed⟩ := (Option.any_eq_true _ _).mp (ready event member).2
      simp only [Bool.and_eq_true] at armed
      exact ⟨registration, registered, armed.1.1⟩
  clear ready
  induction batch generalizing server with
  | nil => exact sound
  | cons event batch ih =>
      obtain ⟨fresh, distinct⟩ := List.nodup_cons.mp distinct
      obtain ⟨registration, registered, isArmed⟩ := armed event List.mem_cons_self
      refine ih (sound_report sound registered isArmed) distinct fun other member => ?_
      rw [epoll_report_of_ne fun same => fresh (same ▸ List.mem_map_of_mem member)]
      exact armed other (List.mem_cons_of_mem _ member)

/-! ## Effects -/

theorem foldl_perform_calls (effects : List Effect) :
    effects.foldl perform server = (effects.filter Effect.isCall).foldl perform server := by
  induction effects generalizing server with
  | nil => rfl
  | cons effect effects ih =>
      cases effect with
      | munmap address length => exact ih
      | sent iv count => exact ih
      | epollAdd fd => exact ih
      | epollMod fd interest => exact ih
      | epollDel fd => exact ih
      | close fd => exact ih
      | userCount change => exact ih

theorem ne_neg_one (valid : 0 ≤ fd) : fd ≠ -1 := by
  rintro rfl
  exact absurd valid (by decide)

/-- `close_conn` on an object whose descriptor is its number. -/
theorem view_closeUser {conn : HttpConn} (own : conn.sockfd = fd) (valid : 0 ≤ fd)
    (isOpen : server.descriptors.isOpen fd = true) (other : Fd) :
    (server.closeUser fd conn).view other =
      if other = fd then
        { server.view other with sockfd := -1, isOpen := false, epoll := none }
      else server.view other := by
  have stillOpen : ((server.setUser fd conn.closeConn.1).perform (.epollDel fd)).descriptors.isOpen
      fd = true := isOpen
  have present : conn.sockfd ≠ -1 := own ▸ ne_neg_one valid
  unfold closeUser WebServer.after
  rw [view_setLife]
  unfold HttpConn.closeConn at stillOpen ⊢
  rw [if_pos present] at stillOpen ⊢
  rw [own] at stillOpen ⊢
  dsimp only [List.foldl_cons, List.foldl_nil]
  rw [view_userCount, view_close stillOpen, view_epollDel, view_setUser]
  split <;> rfl

/-! ## The main loop -/

/-- The connection whose event the main loop is handling: nobody else has it. -/
structure InHand (setup : Setup) (lost : Prop) (server : WebServer) (fd : Fd)
    (registration : Registration) : Prop where
  other : fd ≠ setup.listenfd
  valid : 0 ≤ fd
  view : server.view fd = ⟨fd, true, some registration, 0, 0, nobody⟩
  others : ∀ other, other ≠ fd → Situation setup lost other (server.view other)

namespace InHand

variable {registration : Registration} {interest : Interest}

theorem sockfd (inHand : InHand setup lost server fd registration) :
    (server.users fd).sockfd = fd :=
  congrArg View.sockfd inHand.view

theorem isOpen (inHand : InHand setup lost server fd registration) :
    server.descriptors.isOpen fd = true :=
  congrArg View.isOpen inHand.view

theorem setUser (inHand : InHand setup lost server fd registration) {conn : HttpConn}
    (own : conn.sockfd = fd) : InHand setup lost (server.setUser fd conn) fd registration where
  other := inHand.other
  valid := inHand.valid
  view := by rw [view_setUser, if_pos rfl, inHand.view, own]
  others := fun other different => by
    rw [view_setUser, if_neg different]
    exact inHand.others other different

theorem rearmed (inHand : InHand setup lost server fd registration) (interest : Interest) :
    InHand setup lost (server.perform (.epollMod fd interest)) fd (.rearmed interest) where
  other := inHand.other
  valid := inHand.valid
  view := by rw [view_epollMod, if_pos rfl, inHand.view, Option.map_some]
  others := fun other different => by
    rw [view_epollMod, if_neg different]
    exact inHand.others other different

theorem sound (inHand : InHand setup lost server fd registration)
    (frame : ∀ other, other ≠ fd → after.view other = server.view other)
    (here : Situation setup lost fd (after.view fd)) : Sound setup lost after := by
  intro other
  by_cases same : other = fd
  · rw [same]
    exact here
  · rw [frame other same]
    exact inHand.others other same

theorem armed (inHand : InHand setup lost server fd (.rearmed interest)) :
    Sound setup lost server := by
  refine inHand.sound (fun _ _ => rfl) ?_
  rw [inHand.view]
  exact .armed inHand.other inHand.valid interest

theorem closeUser (inHand : InHand setup lost server fd registration) {conn : HttpConn}
    (own : conn.sockfd = fd) : Sound setup lost (server.closeUser fd conn) := by
  have closed := view_closeUser own inHand.valid inHand.isOpen
  refine inHand.sound (fun other different => (closed other).trans (if_neg different)) ?_
  rw [closed, if_pos rfl, inHand.view]
  exact .apart inHand.other _ _ nofun

theorem append (inHand : InHand setup lost server fd (.disarmed interest))
    (fits : lost ∨ server.workqueue.length ≤ setup.maxRequests) :
    Sound setup lost (server.append setup fd) := by
  unfold WebServer.append
  split
  · next full =>
      have refused : lost := fits.resolve_right (Nat.not_le.mpr full)
      refine inHand.sound (fun _ _ => rfl) ?_
      rw [inHand.view]
      exact .stranded inHand.other inHand.valid interest refused
  · refine inHand.sound (fun other different => view_push.trans (if_neg different)) ?_
    rw [view_push, if_pos rfl, inHand.view]
    exact .queued inHand.other inHand.valid interest

theorem inputBranch (inHand : InHand setup lost server fd (.disarmed interest))
    (received : List RecvResult)
    (fits : ((server.users fd).read received).2 = true →
      lost ∨ server.workqueue.length ≤ setup.maxRequests) :
    Sound setup lost (server.inputBranch setup fd (server.users fd) received) := by
  have own : ((server.users fd).read received).1.sockfd = fd :=
    (congrArg (fun held => held.1.1) ((server.users fd).lasting_read received)).trans inHand.sockfd
  unfold WebServer.inputBranch
  dsimp only
  split
  · next whole => exact (inHand.setUser own).append (fits whole)
  · exact inHand.closeUser own

theorem outputBranch (inHand : InHand setup lost server fd registration)
    (written : List WritevResult) :
    Yields (server.outputBranch fd (server.users fd) written) (Sound setup lost) := by
  have writes := (server.users fd).writes_write written
  rw [HttpConn.Writes, inHand.sockfd] at writes
  unfold WebServer.outputBranch
  generalize (server.users fd).write written = result at writes ⊢
  obtain ⟨conn, effects, state⟩ := result
  cases state with
  | looping bytesToSend bytesHaveSend => exact .error _
  | returned value =>
      obtain ⟨own, wrote⟩ := writes value rfl
      dsimp only at own wrote
      have updated := inHand.setUser own
      unfold WebServer.after
      dsimp only
      rw [foldl_perform_calls]
      generalize effects.filter Effect.isCall = calls at wrote ⊢
      cases wrote with
      | waits interest => exact .ok (updated.rearmed interest).armed
      | failed => exact .ok (updated.closeUser own)
      | completed => exact .ok ((updated.rearmed .input).closeUser own)

end InHand

theorem Sound.listening (sound : Sound setup lost server) :
    server.descriptors.isOpen setup.listenfd = true ∧
      server.descriptors.epoll setup.listenfd =
        some { interest := .input, oneShot := false, armed := true } := by
  have situation := sound setup.listenfd
  have isOpen : (server.view setup.listenfd).isOpen = server.descriptors.isOpen setup.listenfd :=
    rfl
  have epoll : (server.view setup.listenfd).epoll = server.descriptors.epoll setup.listenfd := rfl
  rw [← isOpen, ← epoll]
  generalize server.view setup.listenfd = view at situation
  cases situation with
  | listening => exact ⟨rfl, rfl⟩
  | apart other => exact absurd rfl other
  | armed other => exact absurd rfl other
  | reported other => exact absurd rfl other
  | queued other => exact absurd rfl other
  | served other => exact absurd rfl other
  | closing other => exact absurd rfl other
  | clearing other => exact absurd rfl other
  | closed other => exact absurd rfl other
  | stranded other => exact absurd rfl other

/-- `init` of a new connection whose object nobody uses. -/
theorem sound_init (sound : Sound setup lost server) {connfd : Fd} (valid : 0 ≤ connfd)
    (isClosed : server.descriptors.isOpen connfd = false)
    (unused : (server.view connfd).held = nobody) (conn : HttpConn) :
    Sound setup lost
      (WebServer.after { server with descriptors := server.descriptors.opened connfd } connfd
        (conn.init (match setup.initArgument with
          | .sockfd => setup.listenfd
          | .connfd => connfd))) := by
  have apart : ∃ sockfd, connfd ≠ setup.listenfd ∧
      server.view connfd = ⟨sockfd, false, none, 0, 0, nobody⟩ := by
    have situation := sound connfd
    have viewOpen : (server.view connfd).isOpen = false := isClosed
    generalize server.view connfd = view at situation viewOpen unused ⊢
    cases situation with
    | apart other sockfd isOpen =>
        cases viewOpen
        exact ⟨sockfd, other, rfl⟩
    | clearing other valid worker =>
        exact absurd (congrFun unused worker) (by simp [only, nobody])
    | closed other valid worker =>
        exact absurd (congrFun unused worker) (by simp [only, nobody])
    | listening => cases viewOpen
    | armed => cases viewOpen
    | reported => cases viewOpen
    | queued => cases viewOpen
    | served => cases viewOpen
    | closing => cases viewOpen
    | stranded => cases viewOpen
  obtain ⟨sockfd, other, view⟩ := apart
  cases argument : setup.initArgument with
  | connfd =>
      have initialised := view_init_own (congrArg View.epoll view) conn
      refine sound.step _ (fun index different => (initialised index).trans (if_neg different)) ?_
      refine (congrArg _ (initialised connfd)).mpr ?_
      rw [if_pos rfl, view]
      exact .armed other valid .input
  | sockfd =>
      have registered : server.descriptors.epoll setup.listenfd ≠ none :=
        fun unregistered => nomatch sound.listening.2.symm.trans unregistered
      have initialised := view_init_registered registered conn connfd
      refine sound.step _ (fun index different => (initialised index).trans (if_neg different)) ?_
      refine (congrArg _ (initialised connfd)).mpr ?_
      rw [if_pos rfl, view]
      exact .apart other _ _ fun _ => .inr argument

/-- The accept branch, when no thread still uses the object of the new connection's number. -/
theorem sound_acceptBranch (sound : Sound setup lost server) {connfd : Fd}
    (isClosed : server.descriptors.isOpen connfd = false)
    (unused : 0 ≤ connfd → server.userCount < maxFd → (server.view connfd).held = nobody) :
    Yields (server.acceptBranch setup connfd) (Sound setup lost) := by
  unfold acceptBranch
  dsimp only
  refine .ite (fun _ => .ok sound) fun nonneg => .ite (fun _ => .ok ?_) fun room => ?_
  · refine sound.step _ (fun other different => view_turnedAway.trans (if_neg different)) ?_
    rw [view_turnedAway, if_pos rfl]
    have situation := sound connfd
    have viewOpen : (server.view connfd).isOpen = false := isClosed
    generalize server.view connfd = view at situation viewOpen ⊢
    cases situation with
    | apart other sockfd => exact .apart other sockfd false nofun
    | clearing other valid worker => exact .clearing other valid worker
    | closed other valid worker => exact .closed other valid worker
    | listening => cases viewOpen
    | armed => cases viewOpen
    | reported => cases viewOpen
    | queued => cases viewOpen
    | served => cases viewOpen
    | closing => cases viewOpen
    | stranded => cases viewOpen
  · have valid := Int.not_lt.mp nonneg
    refine .bind_any fun conn => .pure ?_
    exact sound_init sound valid isClosed (unused valid (Int.not_le.mp room)) conn

/-! ## The batch and the threads -/

/-- What the functions of the objects do not touch. -/
def schedule (server : WebServer) : List Event × (Nat → WorkerPlace) :=
  (server.pending, server.workers)

/-- A call concerns the descriptors and the count of users only. -/
theorem perform_eq (effect : Effect) : server.perform effect = { server with
    descriptors := (server.perform effect).descriptors
    userCount := (server.perform effect).userCount } := by
  cases effect with
  | epollAdd fd =>
      unfold perform
      dsimp only
      split <;> rfl
  | epollMod fd interest =>
      unfold perform
      dsimp only
      split <;> rfl
  | epollDel fd => rfl
  | close fd => rfl
  | userCount change => rfl
  | munmap address length => rfl
  | sent iv count => rfl

theorem schedule_perform (effect : Effect) :
    (server.perform effect).schedule = server.schedule :=
  (congrArg schedule (perform_eq effect)).trans rfl

theorem foldl_perform_eq (effects : List Effect) : effects.foldl perform server = { server with
    descriptors := (effects.foldl perform server).descriptors
    userCount := (effects.foldl perform server).userCount } := by
  induction effects generalizing server with
  | nil => rfl
  | cons effect effects ih =>
      rw [List.foldl_cons]
      exact ih.trans (congrArg (fun before : WebServer => { before with
        descriptors := (effects.foldl perform (server.perform effect)).descriptors
        userCount := (effects.foldl perform (server.perform effect)).userCount })
          (perform_eq effect))

theorem schedule_after (result : HttpConn × List Effect) :
    (server.after fd result).schedule = server.schedule :=
  (congrArg schedule (foldl_perform_eq result.2)).trans rfl

theorem schedule_closeUser (conn : HttpConn) :
    (server.closeUser fd conn).schedule = server.schedule :=
  schedule_after conn.closeConn

theorem schedule_append : (server.append setup fd).schedule = server.schedule := by
  unfold append
  split <;> rfl

theorem schedule_inputBranch (conn : HttpConn) (received : List RecvResult) :
    (server.inputBranch setup fd conn received).schedule = server.schedule := by
  unfold inputBranch
  dsimp only
  split
  · exact schedule_append
  · exact schedule_closeUser _

theorem schedule_outputBranch (conn : HttpConn) (written : List WritevResult) :
    Yields (server.outputBranch fd conn written) fun after => after.schedule = server.schedule := by
  unfold outputBranch
  dsimp only
  split
  · exact .ok (schedule_after _)
  · exact .ok ((schedule_closeUser _).trans (schedule_after _))
  · exact .error _

theorem schedule_acceptBranch (connfd : Fd) :
    Yields (server.acceptBranch setup connfd) fun after => after.schedule = server.schedule := by
  unfold acceptBranch
  refine .ite (fun _ => .ok rfl) fun _ => .ite (fun _ => .ok rfl) fun _ => ?_
  refine .bind_any fun conn => .pure ?_
  exact schedule_after _

theorem schedule_dispatch (event : Event) (answers : Answers) :
    Yields (server.dispatch setup event answers) fun after => after.schedule = server.schedule := by
  unfold dispatch
  refine .ite (fun _ => schedule_acceptBranch _) fun _ => .bind_any fun conn => ?_
  refine .ite (fun _ => .pure (schedule_closeUser _)) fun _ => ?_
  refine .ite (fun _ => .pure (schedule_inputBranch _ _)) fun _ => ?_
  exact .ite (fun _ => schedule_outputBranch _ _) fun _ => .pure rfl

theorem schedule_handle (answers : Answers) :
    Yields (server.handle setup answers) fun after =>
      after.schedule = (server.pending.tail, server.workers) := by
  unfold handle
  split
  · next empty =>
      refine .ok ?_
      unfold schedule
      rw [empty]
      rfl
  · next event rest batch =>
      refine (schedule_dispatch event answers).mono fun after same => same.trans ?_
      unfold schedule
      rw [batch]
      rfl

/-! ## Conditions -/

/-- Handling the next event gets to `append`. -/
def appends (setup : Setup) (server : WebServer) (answers : Answers) : Bool :=
  match server.pending with
  | [] => false
  | event :: _ =>
      decide (event.fd ≠ setup.listenfd) && !event.hangup && event.input &&
        ((server.users event.fd).read answers.received).2

/-- `append` finds room in the queue. -/
def Fits (setup : Setup) (server : WebServer) : Op → Prop
  | .wait _ => True
  | .handle answers =>
      server.appends setup answers = true → server.workqueue.length ≤ setup.maxRequests
  | .pop _ => True
  | .process _ _ _ => True
  | .call _ => True

/-- No connection is initialised on a descriptor that a thread has closed in a call of
`process` from which it has not returned. -/
def Fresh (setup : Setup) (server : WebServer) : Op → Prop
  | .wait _ => True
  | .handle answers =>
      server.Accepts setup → 0 ≤ answers.connfd → server.userCount < maxFd →
        ∀ worker < setup.threadNumber, (server.workers worker).hasClosed = true →
          (server.workers worker).object? ≠ some answers.connfd
  | .pop _ => True
  | .process _ _ _ => True
  | .call _ => True

instance (setup : Setup) (server : WebServer) : ∀ op, Decidable (server.Fits setup op)
  | .wait _ => inferInstanceAs (Decidable True)
  | .handle _ => inferInstanceAs (Decidable (_ → _))
  | .pop _ => inferInstanceAs (Decidable True)
  | .process _ _ _ => inferInstanceAs (Decidable True)
  | .call _ => inferInstanceAs (Decidable True)

instance (setup : Setup) (server : WebServer) : ∀ op, Decidable (server.Fresh setup op)
  | .wait _ => inferInstanceAs (Decidable True)
  | .handle _ => inferInstanceAs (Decidable (_ → _ → _ → ∀ worker < setup.threadNumber, _ → _))
  | .pop _ => inferInstanceAs (Decidable True)
  | .process _ _ _ => inferInstanceAs (Decidable True)
  | .call _ => inferInstanceAs (Decidable True)

def Event.flagged (event : Event) : Bool := event.hangup || event.input || event.output

/-- The situations of all descriptors; no thread beyond the number of the pool, and no event
without a flag. -/
structure Owned (setup : Setup) (lost : Prop) (server : WebServer) : Prop where
  sound : Sound setup lost server
  threads : ∀ worker, setup.threadNumber ≤ worker → server.workers worker = .idle
  flagged : ∀ event ∈ server.pending, Event.flagged event = true

/-! ## Each operation -/

theorem Sound.holding (sound : Sound setup lost server) {worker : Nat} {place : WorkerPlace}
    (at_place : server.workers worker = place) (object : place.object? = some fd) :
    Holding setup fd worker place (server.view fd) :=
  (sound fd).of_held (held_of_worker at_place object)

theorem worker_of_held {worker : Nat} {place : WorkerPlace}
    (held : (server.view fd).held worker = some place) :
    server.workers worker = place ∧ place.object? = some fd := by
  unfold view WorkerPlace.holding at held
  dsimp only at held
  split at held
  · next object =>
      cases held
      exact ⟨rfl, object⟩
  · cases held

/-- A descriptor that is not open is free for a new connection, if no thread has closed it
in a call that goes on. -/
theorem held_of_fresh (owned : Owned setup lost server)
    (isClosed : server.descriptors.isOpen fd = false)
    (fresh : ∀ worker < setup.threadNumber, (server.workers worker).hasClosed = true →
      (server.workers worker).object? ≠ some fd) : (server.view fd).held = nobody := by
  funext worker
  cases held : (server.view fd).held worker with
  | none => rfl
  | some place =>
      obtain ⟨at_place, object⟩ := worker_of_held held
      have inside : worker < setup.threadNumber := by
        by_contra outside
        rw [owned.threads worker (Nat.not_lt.mp outside)] at at_place
        cases at_place
        cases object
      have viewOpen : (server.view fd).isOpen = false := isClosed
      have unclosed := fresh worker inside
      rw [at_place] at unclosed
      have holding := owned.sound.holding at_place object
      generalize server.view fd = view at holding viewOpen
      cases holding with
      | served => cases viewOpen
      | closing => cases viewOpen
      | clearing other valid here =>
          rw [here] at unclosed
          exact absurd rfl (unclosed rfl)
      | closed other valid here =>
          rw [here] at unclosed
          exact absurd rfl (unclosed rfl)

theorem yields_user (server : WebServer) (fd : Fd) :
    Yields (server.user fd) (· = server.users fd) :=
  .ite (fun _ => .ok rfl) fun _ => .error _

theorem sound_handle (owned : Owned setup lost server) {answers : Answers}
    (enabled : server.Accepts setup → server.descriptors.isOpen answers.connfd = false)
    (fresh : server.Fresh setup (.handle answers))
    (fits : lost ∨ server.Fits setup (.handle answers)) :
    Yields (server.handle setup answers) (Sound setup lost) := by
  unfold handle
  cases batch : server.pending with
  | nil => exact .ok owned.sound
  | cons event rest =>
      have others : ∀ other, other ≠ event.fd →
          Situation setup lost other (view { server with pending := rest } other) :=
        fun other different => by
          have situation := owned.sound other
          rw [view_pick batch] at situation
          dsimp only at situation
          rwa [if_neg different] at situation
      have picked := owned.sound event.fd
      rw [view_pick batch] at picked
      dsimp only at picked
      rw [if_pos rfl] at picked
      unfold dispatch
      dsimp only
      rcases picked.pick with ⟨listening, situation⟩ | ⟨other, valid, interest, view⟩
      · have taken : Owned setup lost { server with pending := rest } :=
          ⟨fun index => by
            by_cases same : index = event.fd
            · rw [same]
              exact situation
            · exact others index same,
            owned.threads, fun other member =>
              owned.flagged other (batch ▸ List.mem_cons_of_mem _ member)⟩
        have accepts : server.Accepts setup := by
          unfold Accepts
          rw [batch, ← listening]
          rfl
        have isClosed := enabled accepts
        rw [if_pos listening]
        exact sound_acceptBranch taken.sound isClosed fun nonneg room =>
          held_of_fresh taken isClosed (fresh accepts nonneg room)
      · have inHand : InHand setup lost { server with pending := rest } event.fd
            (.disarmed interest) := ⟨other, valid, view, others⟩
        rw [if_neg other]
        refine (yields_user _ event.fd).bind ?_
        · rintro conn rfl
          have flagged := owned.flagged event (batch ▸ List.mem_cons_self)
          unfold Event.flagged at flagged
          refine .ite (fun _ => .pure ?_) fun alive => .ite (fun input => .pure ?_) fun silent => ?_
          · exact inHand.closeUser inHand.sockfd
          · refine inHand.inputBranch answers.received fun whole => fits.imp_right fun fits => ?_
            refine fits ?_
            unfold appends
            rw [batch]
            simp only [decide_eq_true other, Bool.true_and, Bool.and_eq_true, Bool.not_eq_true']
            exact ⟨⟨Bool.not_eq_true _ ▸ alive, input⟩, whole⟩
          · refine .ite (fun _ => inHand.outputBranch answers.written) fun full => ?_
            simp only [Bool.or_eq_true, alive, silent, full, or_self] at flagged
            exact absurd flagged Bool.false_ne_true

/-- A thread that moves is not seen from where it neither was nor goes. -/
theorem view_moveWorker_of_ne {worker : Nat} {place : WorkerPlace}
    (before : (server.workers worker).object? ≠ some fd) (next : place.object? ≠ some fd) :
    (server.moveWorker worker place).view fd = server.view fd := by
  have unheld : (server.view fd).held worker = none := if_neg before
  have stays : place.holding fd = none := if_neg next
  rw [view_moveWorker, stays, ← unheld, Function.update_eq_self]

/-- The thread that has the object goes on, and only the object's descriptor changes. -/
theorem Sound.worker (sound : Sound setup lost server) {worker : Nat} {place next : WorkerPlace}
    (at_place : server.workers worker = place) (object : place.object? = some fd)
    (sameThreads : after.workers = server.workers)
    (frame : ∀ other, other ≠ fd → after.view other = server.view other)
    (nextObject : next.object? = none ∨ next.object? = some fd)
    (here : Situation setup lost fd
      { after.view fd with held := Function.update (after.view fd).held worker (next.holding fd) }) :
    Sound setup lost (after.moveWorker worker next) := by
  refine sound.step fd (fun other different => ?_) ?_
  · refine (view_moveWorker_of_ne ?_ ?_).trans (frame other different)
    · rw [sameThreads, at_place, object]
      exact fun same => different (Option.some.inj same).symm
    · rcases nextObject with none_ | some_
      · rw [none_]
        nofun
      · rw [some_]
        exact fun same => different (Option.some.inj same).symm
  · rw [view_moveWorker]
    exact here

theorem sound_pop (sound : Sound setup lost server) {worker : Nat}
    (idle : server.workers worker = .idle) : Sound setup lost (server.pop worker) := by
  unfold pop
  split
  · exact sound
  · next fd rest queue =>
      have situation := sound fd
      rw [view_take queue] at situation
      dsimp only at situation
      rw [if_pos rfl] at situation
      obtain ⟨other, valid, interest, left⟩ := situation.take
      refine sound.step fd (fun index different => ?_) ?_
      · refine (view_moveWorker_of_ne ?_ ?_).trans ?_
        · dsimp only
          rw [idle]
          nofun
        · exact fun same => different (Option.some.inj same).symm
        · rw [view_take queue]
          dsimp only
          rw [if_neg different]
      · have holding : WorkerPlace.holding fd (.processing fd) = some (.processing fd) := if_pos rfl
        rw [view_moveWorker, left, holding]
        exact .served other valid interest worker .processing

/-- A thread in `process` goes on to a place where the connection is still served. -/
theorem Sound.serves (sound : Sound setup lost server) {worker : Nat} {place next : WorkerPlace}
    (at_place : server.workers worker = place) (serving : Serving fd place)
    (nextServing : Serving fd next) {conn : HttpConn} (own : conn.sockfd = fd) :
    Sound setup lost ((server.setUser fd conn).moveWorker worker next) := by
  obtain ⟨other, valid, interest, view⟩ :=
    (sound.holding at_place serving.object).of_serving serving
  refine sound.worker at_place serving.object rfl
    (fun other different => (view_setUser conn).trans (if_neg different))
    (.inr nextServing.object) ?_
  rw [view_setUser, if_pos rfl, view, own, only_moved worker place nextServing.object]
  exact .served other valid interest worker nextServing

theorem sockfd_of_serving (sound : Sound setup lost server) {worker : Nat} {place : WorkerPlace}
    (at_place : server.workers worker = place) (serving : Serving fd place) :
    (server.users fd).sockfd = fd ∧ 0 ≤ fd := by
  obtain ⟨-, valid, interest, view⟩ :=
    (sound.holding at_place serving.object).of_serving serving
  exact ⟨congrArg View.sockfd view, valid⟩

theorem sound_answer (sound : Sound setup lost server) {worker : Nat}
    (at_place : server.workers worker = .processing fd) {conn : HttpConn} (own : conn.sockfd = fd)
    (readRet : HttpCode) : Sound setup lost (server.answer worker fd conn readRet) := by
  have written := (conn.sockfd_processWrite readRet).trans own
  obtain ⟨-, valid⟩ := sockfd_of_serving sound at_place .processing
  unfold answer
  split
  · exact sound.serves at_place .processing (.rearming .input) own
  · generalize conn.processWrite readRet = result at written ⊢
    obtain ⟨conn, writeRet⟩ := result
    refine sound.serves at_place .processing ?_ written
    dsimp only at written
    rw [written, if_pos (ne_neg_one valid)]
    split
    · exact .rearming .output
    · exact .deleting

theorem sound_process (sound : Sound setup lost server) {worker : Nat}
    (at_place : server.workers worker = .processing fd) (files : FileSystem) (fuel : Nat) :
    Yields (server.process worker fd files fuel) (Sound setup lost) := by
  obtain ⟨sockfd, -⟩ := sockfd_of_serving sound at_place .processing
  unfold process
  have own : Yields ((server.users fd).processRead files fuel) fun read => read.1.sockfd = fd := by
    intro read returned
    exact (HttpConn.sockfd_processRead returned).trans sockfd
  refine (yields_user server fd).bind ?_
  rintro conn rfl
  exact own.bind fun read own => .pure (sound_answer sound at_place own read.2)

theorem Sound.epoll_neg_one (sound : Sound setup lost server) :
    server.descriptors.epoll (-1) = none := by
  have situation := sound (-1)
  have epoll : (server.view (-1)).epoll = server.descriptors.epoll (-1) := rfl
  rw [← epoll]
  generalize server.view (-1) = view at situation
  cases situation with
  | listening same => exact absurd (same ▸ setup.listenfd_nonneg) (by decide)
  | apart => rfl
  | closing => rfl
  | clearing => rfl
  | closed => rfl
  | armed _ valid => exact absurd valid (by decide)
  | reported _ valid => exact absurd valid (by decide)
  | queued _ valid => exact absurd valid (by decide)
  | served _ valid => exact absurd valid (by decide)
  | stranded _ valid => exact absurd valid (by decide)

/-- The last call of `process` in a thread that has closed its connection does nothing. -/
theorem Sound.perform_neg_one (sound : Sound setup lost server) (interest : Interest) :
    server.perform (.epollMod (-1) interest) = server :=
  if_pos sound.epoll_neg_one

theorem sound_call (sound : Sound setup lost server) (worker : Nat) :
    Sound setup lost (server.call worker) := by
  unfold call
  cases at_place : server.workers worker with
  | idle => exact sound
  | processing fd => exact sound
  | rearming fd interest =>
      obtain ⟨sockfd, -⟩ := sockfd_of_serving sound at_place (.rearming interest)
      obtain ⟨other, valid, before, view⟩ :=
        (sound.holding at_place rfl).of_serving (.rearming interest)
      dsimp only
      rw [sockfd]
      refine sound.worker at_place rfl (congrArg Prod.snd (schedule_perform _))
        (fun other different => (view_epollMod interest).trans (if_neg different)) (.inl rfl) ?_
      rw [view_epollMod, if_pos rfl, view, only_released]
      exact .armed other valid interest
  | deleting fd sockfd =>
      obtain ⟨rfl, serving⟩ := (sound.holding at_place rfl).of_deleting
      obtain ⟨other, valid, before, view⟩ := (sound.holding at_place rfl).of_serving serving
      refine sound.worker at_place rfl rfl
        (fun other different => view_epollDel.trans (if_neg different)) (.inr rfl) ?_
      rw [view_epollDel, if_pos rfl, view, only_moved worker _ rfl]
      exact .closing other valid worker
  | closing fd sockfd =>
      obtain ⟨rfl, other, valid, view⟩ := (sound.holding at_place rfl).of_closing
      have isOpen : server.descriptors.isOpen sockfd = true := congrArg View.isOpen view
      refine sound.worker at_place rfl rfl
        (fun other different => (view_close isOpen).trans (if_neg different)) (.inr rfl) ?_
      rw [view_close isOpen, if_pos rfl, view, only_moved worker _ rfl]
      exact .clearing other valid worker
  | clearing fd =>
      obtain ⟨other, valid, view⟩ := (sound.holding at_place rfl).of_clearing
      refine sound.worker at_place rfl rfl
        (fun other different => (view_setUser _).trans (if_neg different)) (.inr rfl) ?_
      rw [view_setLife, view_userCount, view_setUser, if_pos rfl, view, only_moved worker _ rfl]
      exact .closed other valid worker
  | closed fd =>
      obtain ⟨other, view⟩ := (sound.holding at_place rfl).of_closed
      have sockfd : (server.users fd).sockfd = -1 := congrArg View.sockfd view
      dsimp only
      rw [sockfd, sound.perform_neg_one]
      refine sound.worker at_place rfl rfl (fun _ _ => rfl) (.inl rfl) ?_
      rw [view, only_released]
      exact .apart other _ _ nofun

variable (server) in
theorem schedule_wait (batch : List Event) :
    (batch.foldl report server).schedule = (server.pending ++ batch, server.workers) := by
  induction batch generalizing server with
  | nil => exact congrArg (·, server.workers) (List.append_nil _).symm
  | cons event batch ih =>
      refine (ih _).trans (congrArg (·, server.workers) ?_)
      exact List.append_assoc server.pending [event] batch

theorem Owned.moved (owned : Owned setup lost server) (sound : Sound setup lost after)
    {worker : Nat} (inside : worker < setup.threadNumber)
    (schedule : ∃ place,
      after.schedule = (server.pending, Function.update server.workers worker place)) :
    Owned setup lost after := by
  obtain ⟨place, schedule⟩ := schedule
  have workers : after.workers = Function.update server.workers worker place :=
    congrArg Prod.snd schedule
  have pending : after.pending = server.pending := congrArg Prod.fst schedule
  refine ⟨sound, fun index outside => ?_, pending ▸ owned.flagged⟩
  rw [workers, Function.update_of_ne (Nat.ne_of_gt (Nat.lt_of_lt_of_le inside outside))]
  exact owned.threads index outside

theorem Owned.inside (owned : Owned setup lost server) {worker : Nat}
    (busy : server.workers worker ≠ .idle) : worker < setup.threadNumber := by
  by_contra outside
  exact busy (owned.threads worker (Nat.not_lt.mp outside))

theorem schedule_pop (worker : Nat) : ∃ place,
    (server.pop worker).schedule =
      (server.pending, Function.update server.workers worker place) := by
  unfold pop
  split
  · exact ⟨server.workers worker, congrArg (server.pending, ·) (Function.update_eq_self ..).symm⟩
  · next fd rest _ => exact ⟨.processing fd, rfl⟩

theorem schedule_answer (worker : Nat) (conn : HttpConn) (readRet : HttpCode) : ∃ place,
    (server.answer worker fd conn readRet).schedule =
      (server.pending, Function.update server.workers worker place) := by
  unfold answer
  split
  · exact ⟨_, rfl⟩
  · exact ⟨_, rfl⟩

theorem schedule_process (worker : Nat) (files : FileSystem) (fuel : Nat) :
    Yields (server.process worker fd files fuel) fun after => ∃ place,
      after.schedule = (server.pending, Function.update server.workers worker place) := by
  unfold process
  refine .bind_any fun conn => .bind_any fun read => .pure ?_
  exact schedule_answer worker read.1 read.2

theorem schedule_call (worker : Nat) : ∃ place,
    (server.call worker).schedule =
      (server.pending, Function.update server.workers worker place) := by
  have stays : server.schedule =
      (server.pending, Function.update server.workers worker (server.workers worker)) :=
    congrArg (server.pending, ·) (Function.update_eq_self ..).symm
  have moves (effect : Effect) (place : WorkerPlace) :
      ((server.perform effect).moveWorker worker place).schedule =
        (server.pending, Function.update server.workers worker place) :=
    congrArg (fun same => (same.1, Function.update same.2 worker place)) (schedule_perform effect)
  unfold call
  split
  · exact ⟨_, stays⟩
  · exact ⟨_, stays⟩
  · exact ⟨_, moves _ _⟩
  · exact ⟨_, moves _ _⟩
  · exact ⟨_, moves _ _⟩
  · exact ⟨_, rfl⟩
  · exact ⟨_, moves _ _⟩

/-- An operation that finds its object fresh, and whose `append` fits or may lose it. -/
theorem owned_exec (owned : Owned setup lost server) {op : Op}
    (enabled : server.Enabled setup op) (fresh : server.Fresh setup op)
    (fits : lost ∨ server.Fits setup op) : Yields (server.exec setup op) (Owned setup lost) := by
  cases op with
  | wait batch =>
      obtain ⟨blocking, distinct, ready⟩ := enabled
      have schedule := schedule_wait server batch
      have workers := congrArg Prod.snd schedule
      have pending : (batch.foldl report server).pending = batch := by
        have pending := congrArg Prod.fst schedule
        rwa [blocking] at pending
      refine .ok ⟨sound_wait owned.sound distinct ready, ?_, fun event member => ?_⟩
      · exact fun worker outside => (congrFun workers worker).trans (owned.threads worker outside)
      · rw [pending] at member
        exact (ready event member).1
  | handle answers =>
      intro after returned
      have schedule := schedule_handle answers after returned
      have workers : after.workers = server.workers := congrArg Prod.snd schedule
      have pending : after.pending = server.pending.tail := congrArg Prod.fst schedule
      refine ⟨sound_handle owned enabled.2 fresh fits after returned, ?_, ?_⟩
      · rw [workers]
        exact owned.threads
      · rw [pending]
        exact fun event member => owned.flagged event (List.mem_of_mem_tail member)
  | pop worker =>
      obtain ⟨inside, idle, -⟩ := enabled
      exact .ok (owned.moved (sound_pop owned.sound idle) inside (schedule_pop worker))
  | process worker files fuel =>
      dsimp only [exec]
      split
      · next fd at_place =>
          have inside := owned.inside fun idle => nomatch at_place.symm.trans idle
          exact fun after returned => owned.moved
            (sound_process owned.sound at_place files fuel after returned) inside
            (schedule_process worker files fuel after returned)
      · exact .ok owned
  | call worker =>
      have inside : worker < setup.threadNumber := owned.inside fun idle => by
        have calling : (server.workers worker).isCalling = true := enabled
        rw [idle] at calling
        exact Bool.false_ne_true calling
      exact .ok (owned.moved (sound_call owned.sound worker) inside (schedule_call worker))

end WebServer

end HPLinuxServer.Http
