import Mathlib.Data.Int.Interval
import HPLinuxServer.Http.WebServerRuns

/-!
# Clients that are never served

As it is written, the server gives each connection object the listening descriptor. So no
client's descriptor is ever registered, read, written or closed, the queue and the threads
have nothing to do, and the descriptors run out before the server finds itself busy.
-/

set_option autoImplicit false

namespace HPLinuxServer.Http

open Memory Kernel Refinement

/-- Distinct numbers below a bound, one of which is missing. -/
theorem length_lt_of_missing {numbers : List Int} {bound missing : Int} (distinct : numbers.Nodup)
    (range : ∀ number ∈ numbers, 0 ≤ number ∧ number < bound) (inside : 0 ≤ missing ∧ missing < bound)
    (absent : missing ∉ numbers) : (numbers.length : Int) < bound := by
  have within : (missing :: numbers).toFinset ⊆ Finset.Ico 0 bound := by
    intro number member
    apply Finset.mem_Ico.mpr
    rcases List.mem_cons.mp (List.mem_toFinset.mp member) with rfl | member
    · exact inside
    · exact range number member
  have fits := Finset.card_le_card within
  rw [List.toFinset_card_of_nodup (List.nodup_cons.mpr ⟨absent, distinct⟩), List.length_cons,
    Int.card_Ico] at fits
  omega

namespace WebServer

variable {setup : Setup} {server : WebServer} {clients : List Fd} {op : Op}

/-- The descriptor that the operation gets from `accept`, where every event is one of the
listening descriptor. -/
def Op.accepted : Op → List Fd
  | .handle answers => if 0 ≤ answers.connfd then [answers.connfd] else []
  | .wait _ => []
  | .pop _ => []
  | .process _ _ _ => []
  | .call _ => []

/-- The registration of the listening descriptor. -/
def listening : Registration where
  interest := .input
  oneShot := false
  armed := true

/-- Every client that was accepted is still there, and nothing has been done for any. -/
structure Starved (setup : Setup) (clients : List Fd) (server : WebServer) : Prop where
  registered : ∀ fd, server.descriptors.epoll fd =
    if fd = setup.listenfd then some listening else none
  pending : ∀ event ∈ server.pending, event.fd = setup.listenfd
  queue : server.workqueue = []
  workers : ∀ worker, server.workers worker = .idle
  closes : server.descriptors.closes = []
  isOpen : ∀ fd, server.descriptors.isOpen fd = true ↔ setup.own fd = true ∨ fd ∈ clients
  argument : ∀ fd ∈ clients, (server.users fd).sockfd = setup.listenfd
  count : server.userCount = clients.length
  distinct : clients.Nodup
  foreign : ∀ fd ∈ clients, (0 ≤ fd ∧ fd < maxFd) ∧ setup.own fd = false

theorem starved_start (setup : Setup) (objects : Fd → HttpConn) :
    Starved setup [] (start setup objects) where
  registered := fun _ => rfl
  pending := fun _ member => nomatch member
  queue := rfl
  workers := fun _ => rfl
  closes := rfl
  isOpen := fun _ => by simp [start]
  argument := fun _ member => nomatch member
  count := rfl
  distinct := .nil
  foreign := fun _ member => nomatch member

namespace Starved

/-- The descriptors below `MAX_FD` that are left for clients are too few for the limit. -/
theorem few (starved : Starved setup clients server) (small : setup.listenfd < maxFd) :
    (clients.length : Int) < maxFd := by
  apply length_lt_of_missing starved.distinct (fun fd member => (starved.foreign fd member).1)
    ⟨setup.listenfd_nonneg, small⟩
  intro member
  have notOwn := (starved.foreign setup.listenfd member).2
  rw [setup.listenfd_own] at notOwn
  cases notOwn

theorem report (starved : Starved setup clients server) {event : Event}
    (isListening : event.fd = setup.listenfd) : Starved setup clients (server.report event) := by
  have here : server.descriptors.epoll event.fd = some listening := by
    rw [starved.registered, if_pos isListening]
  have next : server.report event = { server with
      pending := server.pending ++ [event]
      descriptors := server.descriptors.epollAdd event.fd listening } := by
    unfold WebServer.report
    rw [here]
    rfl
  rw [next]
  refine { starved with registered := fun fd => ?_, pending := fun other member => ?_ }
  · dsimp only
    rw [Descriptors.epoll_epollAdd, isListening, starved.registered]
    split <;> rfl
  · rcases List.mem_append.mp member with earlier | last
    · exact starved.pending other earlier
    · rw [List.mem_singleton.mp last]
      exact isListening

theorem wait (starved : Starved setup clients server) {batch : List Event}
    (ready : ∀ event ∈ batch, server.Ready event) :
    Starved setup clients (batch.foldl WebServer.report server) := by
  have isListening : ∀ event ∈ batch, event.fd = setup.listenfd := by
    intro event member
    have reported := (ready event member).2
    rw [starved.registered] at reported
    split at reported
    · assumption
    · cases reported
  clear ready
  induction batch generalizing server with
  | nil => exact starved
  | cons event batch ih =>
      exact ih (starved.report (isListening event List.mem_cons_self)) fun other member =>
        isListening other (List.mem_cons_of_mem _ member)

/-- The listening descriptor is registered already, and the client's is not mentioned. -/
theorem after_init (server : WebServer)
    (registered : server.descriptors.epoll setup.listenfd ≠ none) (connfd : Fd)
    (conn : HttpConn) :
    server.after connfd (conn.init setup.listenfd) =
      { server with
        users := Function.update server.users connfd (conn.init setup.listenfd).1
        userCount := server.userCount + 1 } := by
  let stored := server.setUser connfd (conn.init setup.listenfd).1
  have refused : stored.perform (.epollAdd setup.listenfd) = stored :=
    if_neg fun free => registered free.2
  change (stored.perform (.epollAdd setup.listenfd)).perform (.userCount 1) = _
  rw [refused]
  rfl

/-- The accept branch for a client: the object is initialised, and nothing is registered. -/
theorem acceptBranch_eq (starved : Starved setup clients server)
    (asWritten : setup.initArgument = .sockfd) (small : setup.listenfd < maxFd) {connfd : Fd}
    (nonneg : 0 ≤ connfd) :
    server.acceptBranch setup connfd =
      if connfd < maxFd then
        .ok { server with
          users := Function.update server.users connfd
            ((server.users connfd).init setup.listenfd).1
          descriptors := server.descriptors.opened connfd
          userCount := server.userCount + 1
          life := Function.update server.life connfd .inUse }
      else .error .outOfBounds := by
  have room : ¬ server.userCount ≥ maxFd := by
    rw [starved.count]
    exact Int.not_le.mpr (starved.few small)
  unfold acceptBranch
  dsimp only
  rw [if_neg (Int.not_lt.mpr nonneg), if_neg room, asWritten]
  unfold user
  dsimp only
  split
  · next inside =>
      have registered : server.descriptors.epoll setup.listenfd ≠ none := by
        rw [starved.registered, if_pos rfl]
        nofun
      have made := after_init { server with descriptors := server.descriptors.opened connfd }
        registered connfd (server.users connfd)
      rw [if_pos inside.2, ok_bind, made]
      rfl
  · next outside =>
      rw [if_neg fun below => outside ⟨nonneg, below⟩]
      rfl

theorem accept (starved : Starved setup clients server) (asWritten : setup.initArgument = .sockfd)
    (small : setup.listenfd < maxFd) {connfd : Fd} (nonneg : 0 ≤ connfd) (below : connfd < maxFd)
    (unused : server.descriptors.isOpen connfd = false) :
    ∃ next, server.acceptBranch setup connfd = .ok next ∧
      Starved setup (clients ++ [connfd]) next := by
  have foreign : ¬ (setup.own connfd = true ∨ connfd ∈ clients) := by
    rw [← starved.isOpen, unused]
    nofun
  obtain ⟨notOwn, fresh⟩ := not_or.mp foreign
  refine ⟨_, (starved.acceptBranch_eq asWritten small nonneg).trans (if_pos below), ?_⟩
  refine { starved with
    isOpen := fun fd => ?_
    argument := fun fd member => ?_
    count := ?_
    distinct := ?_
    foreign := fun fd member => ?_ }
  · dsimp only
    rw [Descriptors.isOpen_opened, starved.isOpen, List.mem_append, List.mem_singleton]
    tauto
  · dsimp only
    rcases Decidable.em (fd = connfd) with rfl | other
    · rw [Function.update_self]
      rfl
    · rw [Function.update_of_ne other]
      rcases List.mem_append.mp member with earlier | last
      · exact starved.argument fd earlier
      · exact absurd (List.mem_singleton.mp last) other
  · dsimp only
    rw [starved.count, List.length_append, List.length_singleton]
    omega
  · rw [List.nodup_append]
    refine ⟨starved.distinct, List.nodup_singleton _, ?_⟩
    rintro fd member _ last rfl
    exact fresh (List.mem_singleton.mp last ▸ member)
  · rcases List.mem_append.mp member with earlier | last
    · exact starved.foreign fd earlier
    · obtain rfl := List.mem_singleton.mp last
      exact ⟨⟨nonneg, below⟩, by simpa using notOwn⟩

/-- An operation of a starved server leaves it starved, or runs out of the table. -/
theorem exec (starved : Starved setup clients server) (asWritten : setup.initArgument = .sockfd)
    (small : setup.listenfd < maxFd) (enabled : server.Enabled setup op) :
    (∃ next, server.exec setup op = .ok next ∧ Starved setup (clients ++ op.accepted) next ∧
        ∀ fd ∈ op.accepted, fd < maxFd) ∨
      server.exec setup op = .error .outOfBounds ∧ ∃ fd ∈ op.accepted, maxFd ≤ fd := by
  cases op with
  | wait batch =>
      refine .inl ⟨_, rfl, ?_, fun _ member => absurd member List.not_mem_nil⟩
      rw [show (Op.wait batch).accepted = [] from rfl, List.append_nil]
      exact starved.wait enabled.2.2
  | handle answers =>
      cases batch : server.pending with
      | nil => exact absurd batch enabled.1
      | cons event rest =>
          have isListening := starved.pending event (batch ▸ List.mem_cons_self)
          have unused : server.descriptors.isOpen answers.connfd = false := by
            apply enabled.2
            unfold Accepts
            rw [batch, ← isListening]
            rfl
          have left : Starved setup clients { server with pending := rest } := { starved with
            pending := fun other member =>
              starved.pending other (batch ▸ List.mem_cons_of_mem _ member) }
          have handled : server.exec setup (.handle answers) =
              { server with pending := rest }.acceptBranch setup answers.connfd := by
            simp only [WebServer.exec, handle, batch, dispatch, isListening, if_true]
          rw [handled]
          rcases Int.lt_or_le answers.connfd 0 with failed | nonneg
          · have nothing : (Op.handle answers).accepted = [] := if_neg (Int.not_le.mpr failed)
            rw [nothing, List.append_nil]
            exact .inl ⟨_, if_pos failed, left, fun _ member => absurd member List.not_mem_nil⟩
          · have one : (Op.handle answers).accepted = [answers.connfd] := if_pos nonneg
            rw [one]
            rcases Int.lt_or_le answers.connfd maxFd with below | outside
            · obtain ⟨next, accepted, still⟩ := left.accept asWritten small nonneg below unused
              exact .inl ⟨next, accepted, still, fun fd member => List.mem_singleton.mp member ▸ below⟩
            · refine .inr ⟨?_, _, List.mem_singleton_self _, outside⟩
              rw [left.acceptBranch_eq asWritten small nonneg, if_neg (Int.not_lt.mpr outside)]
  | pop worker => exact absurd starved.queue enabled.2.2
  | process worker files fuel =>
      have processing : (server.workers worker).isProcessing = true := enabled
      rw [starved.workers] at processing
      cases processing
  | call worker =>
      have calling : (server.workers worker).isCalling = true := enabled
      rw [starved.workers] at calling
      cases calling

theorem run (starved : Starved setup clients server) (asWritten : setup.initArgument = .sockfd)
    (small : setup.listenfd < maxFd) {ops : List Op}
    (run : StepsMeet (Enabled setup) (WebServer.exec setup) server ops) :
    ((∃ final, runOps (WebServer.exec setup) server ops = .ok final) ↔
        ∀ fd ∈ ops.flatMap Op.accepted, fd < maxFd) ∧
      ∀ final, runOps (WebServer.exec setup) server ops = .ok final →
        Starved setup (clients ++ ops.flatMap Op.accepted) final := by
  induction ops generalizing clients server with
  | nil =>
      refine ⟨iff_of_true ⟨server, rfl⟩ fun _ member => absurd member List.not_mem_nil, ?_⟩
      intro final reached
      cases reached
      rw [List.flatMap_nil, List.append_nil]
      exact starved
  | cons op ops ih =>
      obtain ⟨enabled, rest⟩ := run
      rw [List.flatMap_cons, ← List.append_assoc]
      rcases starved.exec asWritten small enabled with
        ⟨next, executed, still, below⟩ | ⟨failed, fd, member, outside⟩
      · simp only [executed] at rest
        have later := ih still rest
        rw [runOps, executed, ok_bind]
        refine ⟨later.1.trans ⟨fun within fd member => ?_, fun within fd member =>
          within fd (List.mem_append_right _ member)⟩, later.2⟩
        rcases List.mem_append.mp member with first | behind
        · exact below fd first
        · exact within fd behind
      · rw [runOps, failed, error_bind]
        refine ⟨iff_of_false ?_ fun within => ?_, fun final reached => by cases reached⟩
        · rintro ⟨final, reached⟩
          cases reached
        · exact Int.not_lt.mpr outside (within fd (List.mem_append_left _ member))

end Starved

/-- The server as it is written, in any run of events and threads: whoever connects stays
connected and is never heard, nothing is ever queued, popped, closed or refused. The run ends
only with the client whose descriptor lies beyond the table: the limit of `MAX_FD` users, which
would turn him away, is not reached before. -/
theorem webServer_starves (setup : Setup) (asWritten : setup.initArgument = .sockfd)
    (small : setup.listenfd < maxFd) (objects : Fd → HttpConn) (ops : List Op)
    (run : StepsMeet (Enabled setup) (exec setup) (start setup objects) ops) :
    ((∃ server, runOps (exec setup) (start setup objects) ops = .ok server) ↔
        ∀ fd ∈ ops.flatMap Op.accepted, fd < maxFd) ∧
      ∀ server, runOps (exec setup) (start setup objects) ops = .ok server →
        Starved setup (ops.flatMap Op.accepted) server ∧ server.userCount < maxFd := by
  obtain ⟨ends, starved⟩ := (starved_start setup objects).run asWritten small run
  refine ⟨ends, fun server reached => ?_⟩
  have final := starved server reached
  rw [List.nil_append] at final
  exact ⟨final, final.count ▸ final.few small⟩

/-- Two clients connect and send requests. -/
def deafRun : List Op :=
  [.wait [inputOn 3], .handle (acceptOf 5), .wait [inputOn 3], .handle (acceptOf 6)]

theorem webServer_starves_deafRun :
    ((∃ server, runOps (exec (exampleSetup .sockfd)) (start (exampleSetup .sockfd) fun _ => idleConn)
          deafRun = .ok server) ↔ ∀ fd ∈ deafRun.flatMap Op.accepted, fd < maxFd) ∧
      ∀ server, runOps (exec (exampleSetup .sockfd)) (start (exampleSetup .sockfd) fun _ => idleConn)
          deafRun = .ok server →
        Starved (exampleSetup .sockfd) (deafRun.flatMap Op.accepted) server ∧
          server.userCount < maxFd :=
  webServer_starves (exampleSetup .sockfd) rfl (by decide) (fun _ => idleConn) deafRun
    (by decide +kernel)

end WebServer

end HPLinuxServer.Http
