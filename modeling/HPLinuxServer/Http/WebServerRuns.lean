import HPLinuxServer.Http.WebServerProperties

/-!
# Runs of the web server

The laws of the connection table, of connections that nobody serves, and of objects with
two users, each with the runs in which it holds.
-/

set_option autoImplicit false

namespace HPLinuxServer.Http

open Memory Kernel Refinement

namespace WebServer

variable {setup : Setup} {server : WebServer} {fd : Fd} {op : Op}

/-- A server whose descriptors up to 4 are its own, with one thread and little room in the
queue. -/
def exampleSetup (initArgument : InitArgument) : Setup where
  listenfd := 3
  own := fun fd => decide (0 ≤ fd) && decide (fd ≤ 4)
  listenfd_own := rfl
  listenfd_nonneg := by decide
  initArgument
  maxRequests := 1
  threadNumber := 1

def inputOn (fd : Fd) : Event where
  fd
  hangup := false
  input := true
  output := false

def acceptOf (connfd : Fd) : Answers where
  connfd
  received := []
  written := []

def requestOf (text : String) : Answers where
  connfd := -1
  received := [.data (ascii text)]
  written := []

/-- Every path is an empty file. -/
def emptyFiles : FileSystem where
  stat := fun _ => some { mode := 0o100644, size := 0 }
  map := fun _ _ => 0

/-- A client asks for a page, and is told that there is none. -/
def servedRun : List Op :=
  [.wait [inputOn 3], .handle (acceptOf 5), .wait [inputOn 5],
    .handle (requestOf "GET /a HTTP/1.1"), .pop 0, .process 0 noFiles 8, .call 0]

/-! ## Exclusive ownership -/

/-- The object of which the main loop calls a function when it handles the next event. -/
def touched (setup : Setup) (server : WebServer) (answers : Answers) : Option Fd :=
  match server.pending with
  | [] => none
  | event :: _ =>
      if event.fd = setup.listenfd then
        if 0 ≤ answers.connfd ∧ server.userCount < maxFd then some answers.connfd else none
      else some event.fd

/-- No two threads hold the same object. -/
def HeldOnce (setup : Setup) (server : WebServer) : Prop :=
  ∀ worker < setup.threadNumber, ∀ other < setup.threadNumber,
    (server.workers worker).object? ≠ none →
      (server.workers worker).object? = (server.workers other).object? → worker = other

/-- The main loop does not touch an object that a thread holds, and a thread that has closed
its connection does nothing to one that has got the same descriptor. -/
def Exclusive (setup : Setup) (server : WebServer) : Op → Prop
  | .wait _ => True
  | .handle answers =>
      ∀ fd ∈ server.touched setup answers, ∀ worker < setup.threadNumber,
        (server.workers worker).object? ≠ some fd
  | .pop _ => True
  | .process _ _ _ => True
  | .call worker =>
      (server.workers worker).hasClosed = true →
        (server.call worker).descriptors = server.descriptors ∧
          ∀ fd ∈ (server.workers worker).object?, server.descriptors.isOpen fd = false

theorem Owned.heldOnce {lost : Prop} (owned : Owned setup lost server) : HeldOnce setup server := by
  intro worker _ other _ holds same
  obtain ⟨fd, object⟩ := Option.ne_none_iff_exists'.mp holds
  have first : Holding setup fd worker _ (server.view fd) := owned.sound.holding rfl object
  have second : (server.view fd).held other = some _ := held_of_worker rfl (same ▸ object)
  generalize server.view fd = view at first second
  cases first with
  | served => exact (only_eq_some second).1.symm
  | closing => exact (only_eq_some second).1.symm
  | clearing => exact (only_eq_some second).1.symm
  | closed => exact (only_eq_some second).1.symm

theorem object_ne_of_nobody (unheld : (server.view fd).held = nobody) (worker : Nat) :
    (server.workers worker).object? ≠ some fd := by
  intro object
  have held : (server.view fd).held worker = some _ := held_of_worker rfl object
  rw [unheld] at held
  cases held

theorem Owned.exclusive {lost : Prop} (owned : Owned setup lost server)
    (enabled : server.Enabled setup op) (fresh : server.Fresh setup op) :
    server.Exclusive setup op := by
  cases op with
  | wait batch => trivial
  | handle answers =>
      intro fd touches worker _
      unfold touched at touches
      cases batch : server.pending with
      | nil =>
          rw [batch] at touches
          cases touches
      | cons event rest =>
          rw [batch] at touches
          dsimp only at touches
          split at touches
          · next listening =>
              split at touches
              · next room =>
                  cases touches
                  have accepts : server.Accepts setup := by
                    unfold Accepts
                    rw [batch, ← listening]
                    rfl
                  have unheld := held_of_fresh owned (enabled.2 accepts)
                    (fresh accepts room.1 room.2)
                  exact object_ne_of_nobody unheld worker
              · cases touches
          · next other =>
              cases touches
              have picked := owned.sound event.fd
              have view : server.view event.fd = _ := view_pick batch
              rw [view] at picked
              dsimp only at picked view
              rw [if_pos rfl] at picked view
              rcases picked.pick with ⟨listening, -⟩ | ⟨-, -, interest, left⟩
              · exact absurd listening other
              · refine object_ne_of_nobody ?_ worker
                rw [view, left]
  | pop worker => trivial
  | process worker files fuel => trivial
  | call worker =>
      intro hasClosed
      cases at_place : server.workers worker with
      | clearing object =>
          obtain ⟨-, -, view⟩ := (owned.sound.holding at_place rfl).of_clearing
          refine ⟨?_, fun fd same => ?_⟩
          · unfold call
            rw [at_place]
            rfl
          · cases same
            exact congrArg View.isOpen view
      | closed object =>
          obtain ⟨-, view⟩ := (owned.sound.holding at_place rfl).of_closed
          have sockfd : (server.users object).sockfd = -1 := congrArg View.sockfd view
          refine ⟨?_, fun fd same => ?_⟩
          · unfold call
            rw [at_place]
            dsimp only
            rw [sockfd, owned.sound.perform_neg_one]
            rfl
          · cases same
            exact congrArg View.isOpen view
      | idle =>
          rw [at_place] at hasClosed
          cases hasClosed
      | processing fd =>
          rw [at_place] at hasClosed
          cases hasClosed
      | rearming fd interest =>
          rw [at_place] at hasClosed
          cases hasClosed
      | deleting fd sockfd =>
          rw [at_place] at hasClosed
          cases hasClosed
      | closing fd sockfd =>
          rw [at_place] at hasClosed
          cases hasClosed

/-- A main loop that touches no held object takes no descriptor that a thread has closed. -/
theorem fresh_of_exclusive (exclusive : server.Exclusive setup op) : server.Fresh setup op := by
  cases op with
  | handle answers =>
      intro accepts nonneg room worker inside _
      refine exclusive answers.connfd ?_ worker inside
      unfold Accepts at accepts
      unfold touched
      cases batch : server.pending with
      | nil =>
          rw [batch] at accepts
          cases accepts
      | cons event rest =>
          rw [batch] at accepts
          dsimp only
          rw [if_pos (Option.some.inj accepts), if_pos ⟨nonneg, room⟩]
          rfl
  | wait batch => trivial
  | pop worker => trivial
  | process worker files fuel => trivial
  | call worker => trivial

theorem owned_start (setup : Setup) (lost : Prop) (objects : Fd → HttpConn) :
    Owned setup lost (start setup objects) where
  sound := sound_start setup lost objects
  threads := fun _ _ => rfl
  flagged := fun _ member => nomatch member

/-- No object has two users in a run exactly if no connection is initialised on a descriptor
that a thread has closed in a call of `process` that still goes on. -/
theorem webServer_exclusive_iff (setup : Setup) (objects : Fd → HttpConn) (ops : List Op)
    (run : StepsMeet (Enabled setup) (exec setup) (start setup objects) ops) :
    (ReachesOnly (HeldOnce setup) (exec setup) (start setup objects) ops ∧
        StepsMeet (Exclusive setup) (exec setup) (start setup objects) ops) ↔
      StepsMeet (Fresh setup) (exec setup) (start setup objects) ops := by
  have keeps : ∀ server op, Owned setup True server → Enabled setup server op →
      Fresh setup server op → Yields (exec setup server op) (Owned setup True) :=
    fun _ _ owned enabled fresh => owned_exec owned enabled fresh (.inl trivial)
  have exclusively : StepsMeet (Exclusive setup) (exec setup) (start setup objects) ops ↔
      StepsMeet (Fresh setup) (exec setup) (start setup objects) ops := StepsMeet.iff_of_invariant keeps
    (fun _ _ owned enabled => ⟨fresh_of_exclusive, owned.exclusive enabled⟩)
    (owned_start setup True objects) run
  rw [exclusively, and_iff_right_iff_imp]
  intro fresh
  have owned := (run.and fresh).reachesOnly
    (fun server op owned met => keeps server op owned met.1 met.2) (owned_start setup True objects)
  exact owned.mono fun _ owned => owned.heldOnce

theorem webServer_exclusive_iff_servedRun :
    (ReachesOnly (HeldOnce (exampleSetup .connfd)) (exec (exampleSetup .connfd))
          (start (exampleSetup .connfd) fun _ => idleConn) servedRun ∧
        StepsMeet (Exclusive (exampleSetup .connfd)) (exec (exampleSetup .connfd))
          (start (exampleSetup .connfd) fun _ => idleConn) servedRun) ↔
      StepsMeet (Fresh (exampleSetup .connfd)) (exec (exampleSetup .connfd))
        (start (exampleSetup .connfd) fun _ => idleConn) servedRun :=
  webServer_exclusive_iff (exampleSetup .connfd) (fun _ => idleConn) servedRun (by decide +kernel)

/-- The thread has closed 5 and has still to clear `m_sockfd` and call `modfd`, when the next
connection gets 5 and is initialised in the same object. -/
def reusedRun : List Op :=
  [.wait [inputOn 3], .handle (acceptOf 5), .wait [inputOn 5],
    .handle (requestOf "GET /a HTTP/1.1"), .pop 0, .process 0 emptyFiles 8, .call 0, .call 0,
    .wait [inputOn 3], .handle (acceptOf 5)]

theorem webServer_reusesObject :
    ¬∀ (setup : Setup) (objects : Fd → HttpConn) (ops : List Op),
      StepsMeet (Enabled setup) (exec setup) (start setup objects) ops →
        ReachesOnly (HeldOnce setup) (exec setup) (start setup objects) ops ∧
          StepsMeet (Exclusive setup) (exec setup) (start setup objects) ops := by
  intro claimed
  obtain ⟨-, exclusive⟩ := claimed (exampleSetup .connfd) (fun _ => idleConn) reusedRun
    (by decide +kernel)
  have fresh := exclusive.mono fun _ _ => fresh_of_exclusive
  exact absurd fresh (by decide +kernel)

/-! ## Stranded connections -/

/-- The descriptor is registered one-shot; or it is a connection's that is open, where `init`
is given the connection's own descriptor. -/
def IsConnection (setup : Setup) (server : WebServer) (fd : Fd) : Prop :=
  (server.descriptors.epoll fd).any Registration.oneShot = true ∨
    setup.initArgument = .connfd ∧ setup.own fd = false ∧ server.descriptors.isOpen fd = true

/-- The descriptor is armed, or in the hands of the main loop, or in the queue, or held by a
thread. -/
def IsServed (setup : Setup) (server : WebServer) (fd : Fd) : Prop :=
  (server.descriptors.epoll fd).any Registration.armed = true ∨
    fd ∈ server.pending.map Event.fd ∨ fd ∈ server.workqueue ∨
      ∃ worker < setup.threadNumber, (server.workers worker).object? = some fd

instance (setup : Setup) (server : WebServer) (fd : Fd) : Decidable (server.IsConnection setup fd) :=
  inferInstanceAs (Decidable (_ ∨ _ ∧ _ ∧ _))

instance (setup : Setup) (server : WebServer) (fd : Fd) : Decidable (server.IsServed setup fd) :=
  inferInstanceAs (Decidable (_ ∨ _ ∨ _ ∨ ∃ worker < setup.threadNumber, _ = _))

def NotStranded (setup : Setup) (server : WebServer) : Prop :=
  ∀ fd, server.IsConnection setup fd → server.IsServed setup fd

theorem Owned.notStranded (owned : Owned setup False server) : NotStranded setup server := by
  intro fd connection
  have situation := owned.sound fd
  have registered : (server.view fd).epoll = server.descriptors.epoll fd := rfl
  have isOpen : (server.view fd).isOpen = server.descriptors.isOpen fd := rfl
  have pending : (server.view fd).pending = (server.pending.map Event.fd).count fd := rfl
  have queued : (server.view fd).queued = server.workqueue.count fd := rfl
  have held : ∀ worker place, (server.view fd).held worker = some place →
      ∃ worker < setup.threadNumber, (server.workers worker).object? = some fd := by
    intro worker place holds
    obtain ⟨at_place, object⟩ := worker_of_held holds
    refine ⟨worker, owned.inside fun idle => ?_, at_place ▸ object⟩
    rw [← at_place, idle] at object
    cases object
  unfold IsConnection at connection
  unfold IsServed
  rw [← registered, ← isOpen] at connection
  rw [← registered]
  generalize server.view fd = view at situation connection pending queued held ⊢
  cases situation with
  | listening same =>
      rcases connection with oneShot | ⟨-, foreign, -⟩
      · cases oneShot
      · rw [same, setup.listenfd_own] at foreign
        cases foreign
  | armed => exact .inl rfl
  | reported =>
      refine .inr (.inl (List.count_pos_iff.mp ?_))
      rw [← pending]
      exact Nat.one_pos
  | queued =>
      refine .inr (.inr (.inl (List.count_pos_iff.mp ?_)))
      rw [← queued]
      exact Nat.one_pos
  | served _ _ _ worker => exact .inr (.inr (.inr (held worker _ (Function.update_self ..))))
  | closing _ _ worker => exact .inr (.inr (.inr (held worker _ (Function.update_self ..))))
  | stranded _ _ _ refused => exact refused.elim
  | apart _ _ isOpenHere unserved =>
      rcases connection with oneShot | ⟨given, foreign, isOpen⟩
      · cases oneShot
      · rcases unserved isOpen with own | asWritten
        · cases foreign.symm.trans own
        · cases given.symm.trans asWritten
  | clearing =>
      rcases connection with oneShot | ⟨-, -, isOpen⟩
      · cases oneShot
      · cases isOpen
  | closed =>
      rcases connection with oneShot | ⟨-, -, isOpen⟩
      · cases oneShot
      · cases isOpen

/-- If the queue has room for every request, and no connection is initialised on a descriptor
that a thread has closed in a call of `process` that still goes on, none is stranded. -/
theorem webServer_notStranded (setup : Setup) (objects : Fd → HttpConn) (ops : List Op)
    (run : StepsMeet (fun server op => Enabled setup server op ∧ Fits setup server op ∧
      Fresh setup server op) (exec setup) (start setup objects) ops) :
    ReachesOnly (NotStranded setup) (exec setup) (start setup objects) ops := by
  have owned := run.reachesOnly (fun _ _ owned met =>
    owned_exec owned met.1 met.2.2 (.inr met.2.1)) (owned_start setup False objects)
  exact owned.mono fun _ owned => owned.notStranded

theorem webServer_notStranded_servedRun :
    ReachesOnly (NotStranded (exampleSetup .connfd)) (exec (exampleSetup .connfd))
      (start (exampleSetup .connfd) fun _ => idleConn) servedRun :=
  webServer_notStranded (exampleSetup .connfd) (fun _ => idleConn) servedRun (by decide +kernel)

/-- Three requests come in before the thread takes one. The queue refuses the third, and
descriptor 7 stays disarmed. -/
def overloadRun : List Op :=
  [.wait [inputOn 3], .handle (acceptOf 5), .wait [inputOn 3], .handle (acceptOf 6),
    .wait [inputOn 3], .handle (acceptOf 7), .wait [inputOn 5, inputOn 6, inputOn 7],
    .handle (requestOf "GET /a HTTP/1.1"), .handle (requestOf "GET /a HTTP/1.1"),
    .handle (requestOf "GET /a HTTP/1.1")]

theorem webServer_strands :
    ¬∀ (setup : Setup) (objects : Fd → HttpConn) (ops : List Op),
      StepsMeet (Enabled setup) (exec setup) (start setup objects) ops →
        ReachesOnly (NotStranded setup) (exec setup) (start setup objects) ops := by
  intro claimed
  have notStranded := claimed (exampleSetup .connfd) (fun _ => idleConn) overloadRun
    (by decide +kernel)
  have served := notStranded.mono fun _ served => served 7
  exact absurd served (by decide +kernel)

/-! ## The connection table -/

/-- An entry that is in use has its number as its descriptor, which is open and registered;
a closed one has none; the listening descriptor is in none of them; and `m_user_count` is
the number of entries in use. Entries that `init` was never called for hold anything. -/
structure TableAgrees (setup : Setup) (server : WebServer) : Prop where
  inUse : ∀ fd, server.life fd = .inUse →
    (server.users fd).sockfd = fd ∧ server.descriptors.isOpen fd = true ∧
      server.descriptors.epoll fd ≠ none
  closed : ∀ fd, server.life fd = .closed → (server.users fd).sockfd = -1
  listening : ∀ fd, server.life fd ≠ .unused → (server.users fd).sockfd ≠ setup.listenfd
  count : server.userCount =
    (List.range maxFd.toNat).countP fun (fd : Nat) => decide (server.life (fd : Int) = .inUse)

/-- `accept` returns no descriptor. -/
def AcceptsNone (setup : Setup) (server : WebServer) : Op → Prop
  | .wait _ => True
  | .handle answers => server.Accepts setup → answers.connfd < 0
  | .pop _ => True
  | .process _ _ _ => True
  | .call _ => True

instance (setup : Setup) (server : WebServer) : ∀ op, Decidable (server.AcceptsNone setup op)
  | .wait _ => inferInstanceAs (Decidable True)
  | .handle _ => inferInstanceAs (Decidable (_ → _))
  | .pop _ => inferInstanceAs (Decidable True)
  | .process _ _ _ => inferInstanceAs (Decidable True)
  | .call _ => inferInstanceAs (Decidable True)

/-- Nobody has connected yet. -/
structure Quiet (setup : Setup) (server : WebServer) : Prop where
  life : ∀ fd, server.life fd = .unused
  userCount : server.userCount = 0
  queue : server.workqueue = []
  workers : ∀ worker, server.workers worker = .idle
  isOpen : server.descriptors.isOpen setup.listenfd = true
  epoll : ∀ fd, fd ≠ setup.listenfd → server.descriptors.epoll fd = none
  pending : ∀ event ∈ server.pending, event.fd = setup.listenfd

theorem Quiet.tableAgrees (quiet : Quiet setup server) : TableAgrees setup server where
  inUse := fun fd inUse => nomatch (quiet.life fd).symm.trans inUse
  closed := fun fd closed => nomatch (quiet.life fd).symm.trans closed
  listening := fun fd used => absurd (quiet.life fd) used
  count := by
    have none_inUse : ∀ fd ∈ List.range maxFd.toNat,
        ¬decide (server.life (fd : Int) = .inUse) = true := fun fd _ inUse =>
      nomatch (quiet.life fd).symm.trans (of_decide_eq_true inUse)
    rw [quiet.userCount, List.countP_eq_zero.mpr none_inUse]
    rfl

theorem Quiet.report (quiet : Quiet setup server) {event : Event}
    (listening : event.fd = setup.listenfd) : Quiet setup (server.report event) where
  life := quiet.life
  userCount := quiet.userCount
  queue := quiet.queue
  workers := quiet.workers
  isOpen := by
    unfold WebServer.report
    dsimp only
    split
    · exact quiet.isOpen
    · exact quiet.isOpen
  epoll := fun fd other => by
    rw [epoll_report_of_ne (listening ▸ other)]
    exact quiet.epoll fd other
  pending := fun other member => by
    rcases List.mem_append.mp member with earlier | last
    · exact quiet.pending other earlier
    · rw [List.mem_singleton.mp last]
      exact listening

theorem Quiet.wait (quiet : Quiet setup server) {batch : List Event}
    (listening : ∀ event ∈ batch, event.fd = setup.listenfd) :
    Quiet setup (batch.foldl WebServer.report server) := by
  induction batch generalizing server with
  | nil => exact quiet
  | cons event batch ih =>
      exact ih (quiet.report (listening event List.mem_cons_self)) fun other member =>
        listening other (List.mem_cons_of_mem _ member)

theorem Quiet.listening_of_ready (quiet : Quiet setup server) {event : Event}
    (ready : server.Ready event) : event.fd = setup.listenfd := by
  by_contra other
  have registered := ready.2
  rw [quiet.epoll event.fd other] at registered
  cases registered

theorem quiet_exec (quiet : Quiet setup server) (enabled : server.Enabled setup op)
    (acceptsNone : server.AcceptsNone setup op) :
    ∃ next, server.exec setup op = .ok next ∧ Quiet setup next := by
  cases op with
  | wait batch =>
      exact ⟨_, rfl, quiet.wait fun event member =>
        quiet.listening_of_ready (enabled.2.2 event member)⟩
  | handle answers =>
      cases batch : server.pending with
      | nil => exact absurd batch enabled.1
      | cons event rest =>
          have listening := quiet.pending event (batch ▸ List.mem_cons_self)
          have accepts : server.Accepts setup := by
            unfold Accepts
            rw [batch, ← listening]
            rfl
          refine ⟨{ server with pending := rest }, ?_, { quiet with
            pending := fun other member =>
              quiet.pending other (batch ▸ List.mem_cons_of_mem _ member) }⟩
          simp only [exec, handle, batch, dispatch, listening, if_true, acceptBranch,
            if_pos (acceptsNone accepts)]
  | pop worker => exact absurd quiet.queue enabled.2.2
  | process worker files fuel =>
      have processing : (server.workers worker).isProcessing = true := enabled
      rw [quiet.workers] at processing
      cases processing
  | call worker =>
      have calling : (server.workers worker).isCalling = true := enabled
      rw [quiet.workers] at calling
      cases calling

theorem users_after (result : HttpConn × List Effect) :
    (server.after fd result).users = Function.update server.users fd result.1 :=
  (congrArg WebServer.users (foldl_perform_eq result.2)).trans rfl

/-- A connection that is accepted gets the listening descriptor instead of its own. -/
theorem acceptBranch_disagrees (asWritten : setup.initArgument = .sockfd)
    (quiet : Quiet setup server) {connfd : Fd} (nonneg : 0 ≤ connfd)
    {next : WebServer} (accepted : server.acceptBranch setup connfd = .ok next) :
    ¬TableAgrees setup next := by
  have room : ¬server.userCount ≥ maxFd := by
    rw [quiet.userCount]
    decide
  unfold acceptBranch at accepted
  dsimp only at accepted
  rw [if_neg (Int.not_lt.mpr nonneg), if_neg room, asWritten] at accepted
  obtain ⟨conn, -, accepted⟩ := bind_eq_ok_iff.mp accepted
  cases accepted
  intro agrees
  refine agrees.listening connfd ?_ ?_
  · unfold setLife
    dsimp only
    rw [Function.update_self]
    nofun
  · unfold setLife
    dsimp only
    rw [users_after, Function.update_self]
    rfl

/-- The table agrees after an operation exactly if that has accepted no connection. -/
theorem tableAgrees_step_iff (asWritten : setup.initArgument = .sockfd)
    (quiet : Quiet setup server) (enabled : server.Enabled setup op) :
    (∃ next, server.exec setup op = .ok next ∧ TableAgrees setup next) ↔
      server.AcceptsNone setup op := by
  constructor
  · intro ⟨next, executed, agrees⟩
    cases op with
    | handle answers =>
        intro accepts
        by_contra accepted
        unfold exec handle at executed
        unfold Accepts at accepts
        cases batch : server.pending with
        | nil => exact absurd batch enabled.1
        | cons event rest =>
            rw [batch] at accepts
            have listening := Option.some.inj accepts
            simp only [batch, dispatch, listening, if_true] at executed
            have left : Quiet setup { server with pending := rest } := { quiet with
              pending := fun other member =>
                quiet.pending other (batch ▸ List.mem_cons_of_mem _ member) }
            exact acceptBranch_disagrees asWritten left (Int.not_lt.mp accepted) executed agrees
    | wait batch => trivial
    | pop worker => trivial
    | process worker files fuel => trivial
    | call worker => trivial
  · intro acceptsNone
    obtain ⟨next, executed, still⟩ := quiet_exec quiet enabled acceptsNone
    exact ⟨next, executed, still.tableAgrees⟩

theorem quiet_start (setup : Setup) (objects : Fd → HttpConn) :
    Quiet setup (start setup objects) where
  life := fun _ => rfl
  userCount := rfl
  queue := rfl
  workers := fun _ => rfl
  isOpen := setup.listenfd_own
  epoll := fun _ other => if_neg other
  pending := fun _ member => nomatch member

/-- As the server is written, its table of connections agrees with the kernel in all states
of a run, and the run stays within the table, exactly if no connection is ever accepted. -/
theorem webServer_tableAgrees_iff (setup : Setup) (asWritten : setup.initArgument = .sockfd)
    (objects : Fd → HttpConn) (ops : List Op)
    (run : StepsMeet (Enabled setup) (exec setup) (start setup objects) ops) :
    ((∃ final, runOps (exec setup) (start setup objects) ops = .ok final) ∧
        ReachesOnly (TableAgrees setup) (exec setup) (start setup objects) ops) ↔
      StepsMeet (AcceptsNone setup) (exec setup) (start setup objects) ops := by
  have quiet := quiet_start setup objects
  have keeps : ∀ server op, Quiet setup server → Enabled setup server op →
      AcceptsNone setup server op → Yields (exec setup server op) (Quiet setup) := by
    intro server op quiet enabled acceptsNone next executed
    obtain ⟨same, executedSame, still⟩ := quiet_exec quiet enabled acceptsNone
    cases executed.symm.trans executedSame
    exact still
  rw [succeeds_reachesOnly_iff, and_iff_right quiet.tableAgrees]
  exact StepsMeet.iff_of_invariant keeps
    (fun _ _ quiet enabled => tableAgrees_step_iff asWritten quiet enabled) quiet run

theorem webServer_tableAgrees_iff_failedAccept :
    ((∃ final, runOps (exec (exampleSetup .sockfd)) (start (exampleSetup .sockfd) fun _ => idleConn)
          [.wait [inputOn 3], .handle (acceptOf (-1))] = .ok final) ∧
        ReachesOnly (TableAgrees (exampleSetup .sockfd)) (exec (exampleSetup .sockfd))
          (start (exampleSetup .sockfd) fun _ => idleConn)
          [.wait [inputOn 3], .handle (acceptOf (-1))]) ↔
      StepsMeet (AcceptsNone (exampleSetup .sockfd)) (exec (exampleSetup .sockfd))
        (start (exampleSetup .sockfd) fun _ => idleConn)
        [.wait [inputOn 3], .handle (acceptOf (-1))] :=
  webServer_tableAgrees_iff (exampleSetup .sockfd) rfl (fun _ => idleConn)
    [.wait [inputOn 3], .handle (acceptOf (-1))] (by decide +kernel)

/-- The first client is accepted as descriptor 5, and `users[5]` says 3. -/
theorem webServer_swapsDescriptors :
    ¬∀ (setup : Setup), setup.initArgument = .sockfd → ∀ (objects : Fd → HttpConn) (ops : List Op),
      StepsMeet (Enabled setup) (exec setup) (start setup objects) ops →
        (∃ final, runOps (exec setup) (start setup objects) ops = .ok final) ∧
          ReachesOnly (TableAgrees setup) (exec setup) (start setup objects) ops := by
  intro claimed
  obtain ⟨-, agrees⟩ := claimed (exampleSetup .sockfd) rfl (fun _ => idleConn)
    [.wait [inputOn 3], .handle (acceptOf 5)] (by decide +kernel)
  have own := agrees.mono fun _ agrees inUse => (agrees.inUse 5 inUse).1
  exact absurd own (by decide +kernel)

end WebServer

end HPLinuxServer.Http
