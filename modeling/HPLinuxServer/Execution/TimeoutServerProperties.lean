import HPLinuxServer.Execution.TimeoutServer

/-!
# Clients of the timeout server

What the server is for: a client is open from its `accept` until it closes, its
connection fails, or a timer run finds it idle for `3 * TIMESLOT`. The server's
tables, its timer list and the kernel agree on this set of clients between any
two batches of events.
-/

set_option autoImplicit false

namespace HPLinuxServer.Execution

open Memory Kernel Timer Scheduling Refinement

/-- An open client, its timer, and when it was last heard of. -/
structure Client where
  fd : Fd
  timer : Addr
  lastSeen : Int
  deriving DecidableEq, Repr

structure Clients where
  clients : List Client := []
  clock : Int
  timeout : Bool := false
  stopServer : Bool := false
  deriving DecidableEq, Repr

namespace Client

/-- The timer of the client. -/
def entry (client : Client) : Entry Callback Fd :=
  ⟨client.timer, client.lastSeen + 3 * TIMESLOT, .cbFunc, client.fd⟩

def seen (client : Client) (fd : Fd) (now : Int) : Client :=
  if client.fd = fd then { client with lastSeen := now } else client

end Client

namespace Clients

def fds (state : Clients) : List Fd := state.clients.map Client.fd

def timers (state : Clients) : List Addr := state.clients.map Client.timer

/-- Whether the epoll instance watches `fd`. -/
def Watched (setup : Setup) (state : Clients) (fd : Fd) : Prop :=
  fd = setup.listenfd ∨ fd = setup.pipefd0 ∨ fd ∈ state.fds

instance (setup : Setup) (state : Clients) (fd : Fd) : Decidable (state.Watched setup fd) :=
  inferInstanceAs (Decidable (_ ∨ _ ∨ _))

def drop (state : Clients) (fd : Fd) : Clients :=
  { state with clients := state.clients.filter fun client => client.fd ≠ fd }

def receive (state : Clients) (fd : Fd) (answers : Answers) : Clients :=
  match answers.received with
  | .failed true => state
  | .failed false => state.drop fd
  | .bytes [] => state.drop fd
  | .bytes (_ :: _) =>
      { state with clients := state.clients.map fun client => client.seen fd answers.now }

def receiveSignals (state : Clients) : Received → Clients
  | .failed _ => state
  | .bytes signals =>
      { state with
        timeout := state.timeout || signals.contains SIGALRM
        stopServer := state.stopServer || signals.contains SIGTERM }

def handleEvent (setup : Setup) (state : Clients) (input : EpollEvent × Answers) : Clients :=
  let (event, answers) := input
  let state := { state with clock := answers.now }
  if event.fd = setup.listenfd then
    { state with clients := ⟨answers.connfd, answers.timer, answers.now⟩ :: state.clients }
  else if event.fd = setup.pipefd0 ∧ event.epollin then state.receiveSignals answers.received
  else if event.epollin then state.receive event.fd answers
  else state

/-- A timer run leaves the clients heard of less than `3 * TIMESLOT` ago. -/
def timerHandler (state : Clients) (now : Int) : Clients :=
  { state with clients := state.clients.filter fun client => now < client.lastSeen + 3 * TIMESLOT }

def handleBatch (setup : Setup) (state : Clients) (batch : Batch) : Clients :=
  let state := batch.events.foldl (handleEvent setup) state
  let state := { state with clock := batch.now }
  if state.timeout then { state.timerHandler batch.now with timeout := false } else state

/-- One round of the main loop, if it is still running. -/
def round (setup : Setup) (state : Clients) (batch : Batch) : Clients :=
  if state.stopServer then state else state.handleBatch setup batch

/-- What the kernel, `new` and the clock keep to while one event is handled:
`accept` gives a descriptor that is not open, `new` an address that is not in
use, and time does not go back. -/
def AnswersAllowed (setup : Setup) (state : Clients) (input : EpollEvent × Answers) : Prop :=
  state.clock ≤ input.2.now ∧
    (input.1.fd = setup.listenfd →
      0 ≤ input.2.connfd ∧ setup.own input.2.connfd = false ∧ input.2.connfd ∉ state.fds ∧
        input.2.timer ∉ state.timers)

instance (setup : Setup) (state : Clients) (input : EpollEvent × Answers) :
    Decidable (state.AnswersAllowed setup input) :=
  inferInstanceAs (Decidable (_ ∧ (_ → _ ∧ _ ∧ _ ∧ _)))

/-- `epoll_wait` reports watched descriptors, each at most once. -/
structure BatchAllowed (setup : Setup) (state : Clients) (batch : Batch) : Prop where
  distinct : (batch.events.map fun input => input.1.fd).Nodup
  watched : ∀ input ∈ batch.events, state.Watched setup input.1.fd
  answers : AllowedRun (AnswersAllowed setup) (handleEvent setup) state batch.events
  clock : (batch.events.foldl (handleEvent setup) state).clock ≤ batch.now

instance (setup : Setup) (state : Clients) (batch : Batch) :
    Decidable (state.BatchAllowed setup batch) :=
  decidable_of_iff
    ((batch.events.map fun input => input.1.fd).Nodup ∧
      (∀ input ∈ batch.events, state.Watched setup input.1.fd) ∧
      AllowedRun (AnswersAllowed setup) (handleEvent setup) state batch.events ∧
      (batch.events.foldl (handleEvent setup) state).clock ≤ batch.now)
    ⟨fun ⟨distinct, watched, answers, clock⟩ => ⟨distinct, watched, answers, clock⟩,
      fun ⟨distinct, watched, answers, clock⟩ => ⟨distinct, watched, answers, clock⟩⟩

/-- Batches only come while the main loop is running. -/
def RoundAllowed (setup : Setup) (state : Clients) (batch : Batch) : Prop :=
  state.stopServer = false → state.BatchAllowed setup batch

instance (setup : Setup) (state : Clients) (batch : Batch) :
    Decidable (state.RoundAllowed setup batch) :=
  inferInstanceAs (Decidable (_ → _))

end Clients

/-- The descriptors that `accept` returns have an entry in `users`. -/
def Batch.InTable (setup : Setup) (batch : Batch) : Prop :=
  ∀ input ∈ batch.events, input.1.fd = setup.listenfd → input.2.connfd < FD_LIMIT

instance (setup : Setup) (batch : Batch) : Decidable (batch.InTable setup) :=
  inferInstanceAs (Decidable (∀ input ∈ batch.events, _ → _))

/-- `users` and the kernel agree on the open clients. -/
structure Tables (setup : Setup) (data : ServerData) (clients : List Client) : Prop where
  users : ∀ client ∈ clients,
    data.users client.fd = { sockfd := some client.fd, timer := some (some client.timer) }
  isOpen : ∀ fd, data.descriptors.isOpen fd = true ↔
    setup.own fd = true ∨ fd ∈ clients.map Client.fd
  epoll : ∀ fd, (data.descriptors.epoll fd).isSome = true ↔
    fd = setup.listenfd ∨ fd = setup.pipefd0 ∨ fd ∈ clients.map Client.fd
  distinct : (clients.map Client.fd).Nodup
  notOwn : ∀ fd ∈ clients.map Client.fd, setup.own fd = false
  inRange : ∀ fd ∈ clients.map Client.fd, 0 ≤ fd ∧ fd < FD_LIMIT
  closedOnce : data.descriptors.ClosedOnce

/-- So does the timer list: its live timers are those of the clients, one each,
due `3 * TIMESLOT` after the client was last heard of. -/
structure Agreement (setup : Setup) (server : Server) (state : Clients) : Prop where
  timers : ∃ agenda, WellFormed server agenda ∧ agenda.Perm (state.clients.map Client.entry)
  tables : Tables setup server.world state.clients
  lastSeen : ∀ client ∈ state.clients, client.lastSeen ≤ state.clock
  timeout : server.world.timeout = state.timeout
  stopServer : server.world.stopServer = state.stopServer

theorem agreement_start (setup : Setup) (now : Int) :
    Agreement setup (start setup) { clock := now } where
  timers := ⟨[], wellFormed_init _, List.Perm.refl _⟩
  tables :=
    { users := by simp
      isOpen := by simp [start, SortTimerLst.init]
      epoll := by
        intro fd
        simp only [start, SortTimerLst.init]
        split <;> simp_all
      distinct := List.nodup_nil
      notOwn := by simp
      inRange := by simp
      closedOnce := by simp [start, SortTimerLst.init, Descriptors.ClosedOnce] }
  lastSeen := by simp
  timeout := rfl
  stopServer := rfl

/-! ## Closing clients -/

theorem ServerData.user_eq {data : ServerData} {fd : Fd} (low : 0 ≤ fd) (high : fd < FD_LIMIT) :
    data.user fd = .ok (data.users fd) := if_pos ⟨low, high⟩

namespace Tables

variable {setup : Setup} {data : ServerData} {clients : List Client}

theorem own_ne (tables : Tables setup data clients) {fd : Fd} (own : setup.own fd = true) :
    fd ∉ clients.map Client.fd := by
  intro member
  simp [tables.notOwn fd member] at own

/-- `cb_func` closes the client it is called for, once. -/
theorem cbFunc_spec (tables : Tables setup data clients) {client : Client}
    (member : client ∈ clients) :
    ∃ data', cbFunc setup client.fd data = .ok data' ∧
      Tables setup data' (clients.filter fun other => other.fd ≠ client.fd) ∧
      data'.timeout = data.timeout ∧ data'.stopServer = data.stopServer := by
  have present : client.fd ∈ clients.map Client.fd := List.mem_map_of_mem member
  obtain ⟨low, high⟩ := tables.inRange client.fd present
  have isOpen : data.descriptors.isOpen client.fd = true :=
    (tables.isOpen client.fd).mpr (.inr present)
  let before := if staticEpollfd = setup.epollfd then data.descriptors.epollDel client.fd
    else data.descriptors
  have openBefore : before.isOpen = data.descriptors.isOpen := by
    simp only [before]
    split <;> rfl
  have closesBefore : before.closes = data.descriptors.closes := by
    simp only [before]
    split <;> rfl
  have epollBefore : ∀ other, other ≠ client.fd →
      before.epoll other = data.descriptors.epoll other := by
    intro other different
    simp only [before]
    split
    · simp [different]
    · rfl
  have left : ∀ fd, fd ∈ (clients.filter fun other => other.fd ≠ client.fd).map Client.fd ↔
      fd ≠ client.fd ∧ fd ∈ clients.map Client.fd := by
    intro fd
    simp only [List.mem_map, List.mem_filter, decide_eq_true_eq]
    constructor
    · rintro ⟨other, ⟨present, different⟩, rfl⟩
      exact ⟨different, other, present, rfl⟩
    · rintro ⟨different, other, present, rfl⟩
      exact ⟨other, ⟨present, different⟩, rfl⟩
  have isOwn : ∀ fd, setup.own fd = true → fd ≠ client.fd := by
    rintro fd own rfl
    exact tables.own_ne own present
  refine ⟨{ data with descriptors := before.close client.fd }, ?_, ?_, rfl, rfl⟩
  · unfold cbFunc
    rw [ServerData.user_eq low high]
    simp only [ok_bind, tables.users client member, initialised, pure_eq_ok, before]
  · constructor
    · intro other member
      exact tables.users other (List.mem_of_mem_filter member)
    · intro fd
      rw [Descriptors.isOpen_close, openBefore, tables.isOpen, left]
      constructor
      · rintro ⟨different, own | other⟩
        · exact .inl own
        · exact .inr ⟨different, other⟩
      · rintro (own | ⟨different, other⟩)
        · exact ⟨isOwn fd own, .inl own⟩
        · exact ⟨different, .inr other⟩
    · intro fd
      rw [Descriptors.epoll_close (by rw [openBefore]; exact isOpen), left]
      by_cases same : fd = client.fd
      · subst same
        have notListen : client.fd ≠ setup.listenfd := fun same =>
          isOwn _ setup.listenfd_own same.symm
        have notPipe : client.fd ≠ setup.pipefd0 := fun same =>
          isOwn _ setup.pipefd0_own same.symm
        simp [notListen, notPipe]
      · rw [if_neg same, epollBefore fd same, tables.epoll]
        simp [same]
    · exact tables.distinct.sublist (List.filter_sublist.map _)
    · intro fd member
      exact tables.notOwn fd ((left fd).mp member).2
    · intro fd member
      exact tables.inRange fd ((left fd).mp member).2
    · apply Descriptors.ClosedOnce.close
      · unfold Descriptors.ClosedOnce
        rw [closesBefore]
        exact tables.closedOnce
      · rw [openBefore]
        exact isOpen

/-- A timer run closes the clients of the timers that are called back. -/
theorem fire_spec (tables : Tables setup data clients) {entries : Agenda Callback Fd}
    (known : ∀ entry ∈ entries, ∃ client ∈ clients, client.entry = entry)
    (apart : (entries.map Entry.userData).Nodup) :
    ∃ data', SortTimerLst.fire (callBack setup) entries data = .ok data' ∧
      Tables setup data' (clients.filter fun client => client.fd ∉ entries.map Entry.userData) ∧
      data'.timeout = data.timeout ∧ data'.stopServer = data.stopServer := by
  induction entries generalizing data clients with
  | nil => exact ⟨data, rfl, by simpa using tables, rfl, rfl⟩
  | cons entry entries ih =>
      obtain ⟨client, member, rfl⟩ := known entry List.mem_cons_self
      obtain ⟨outside, apartRest⟩ := List.nodup_cons.mp apart
      obtain ⟨data₁, closed, tables₁, timeout₁, stopServer₁⟩ := tables.cbFunc_spec member
      have knownRest : ∀ other ∈ entries, ∃ left ∈ clients.filter fun other =>
          other.fd ≠ client.fd, left.entry = other := by
        intro other present
        obtain ⟨left, leftMember, rfl⟩ := known other (List.mem_cons_of_mem _ present)
        refine ⟨left, List.mem_filter.mpr ⟨leftMember, ?_⟩, rfl⟩
        have different : left.fd ≠ client.fd := fun same =>
          outside (List.mem_map.mpr ⟨left.entry, present, same⟩)
        simpa using different
      obtain ⟨data', fired, tables', timeout', stopServer'⟩ := ih tables₁ knownRest apartRest
      refine ⟨data', ?_, ?_, timeout'.trans timeout₁, stopServer'.trans stopServer₁⟩
      · unfold SortTimerLst.fire
        simp only [callBack, Client.entry, closed, ok_bind, fired]
      · rw [List.filter_filter] at tables'
        have same : ∀ other : Client, (decide (other.fd ∉ entries.map Entry.userData) &&
            decide (other.fd ≠ client.fd)) =
              decide (other.fd ∉ (client.entry :: entries).map Entry.userData) := by
          intro other
          by_cases first : other.fd = client.fd <;> simp [Client.entry, first]
        simpa only [same] using tables'

end Tables

/-! ## Events -/

namespace Agreement

variable {setup : Setup} {server : Server} {state : Clients} {fuel : Nat}

theorem agenda_length {agenda : Agenda Callback Fd}
    (same : agenda.Perm (state.clients.map Client.entry)) :
    agenda.length = state.clients.length := by
  rw [same.length_eq, List.length_map]

theorem mem_addresses_iff {agenda : Agenda Callback Fd}
    (same : agenda.Perm (state.clients.map Client.entry)) {address : Addr} :
    address ∈ Agenda.addresses agenda ↔ address ∈ state.timers := by
  unfold Agenda.addresses
  rw [(same.map Entry.timer).mem_iff, List.map_map]
  rfl

/-- A timer run closes exactly the clients that have been idle for
`3 * TIMESLOT`. -/
theorem timerHandler_spec (agreement : Agreement setup server state) (now : Int)
    (enough : state.clients.length ≤ fuel) :
    ∃ server', timerHandler setup fuel server now = .ok server' ∧
      Agreement setup server' (state.timerHandler now) := by
  obtain ⟨agenda, formed, same⟩ := agreement.timers
  have known : ∀ entry ∈ due Entry.expire now agenda,
      ∃ client ∈ state.clients, client.entry = entry := by
    intro entry member
    exact List.mem_map.mp (same.mem_iff.mp (List.mem_of_mem_filter member))
  have fdsSame : (agenda.map Entry.userData).Perm state.fds := by
    have mapped := same.map Entry.userData
    rwa [List.map_map] at mapped
  have apart : (due Entry.expire now agenda |>.map Entry.userData).Nodup :=
    (fdsSame.nodup_iff.mpr agreement.tables.distinct).sublist (List.filter_sublist.map _)
  obtain ⟨data, fired, tables, timeout, stopServer⟩ := agreement.tables.fire_spec known apart
  obtain ⟨server', done, formed', world⟩ :=
    formed.exec_tick (Nat.le_trans (Nat.le_of_eq (agenda_length same)) enough) fired
  have idle : ∀ client ∈ state.clients,
      client.fd ∈ (due Entry.expire now agenda).map Entry.userData ↔
        ¬ now < client.lastSeen + 3 * TIMESLOT := by
    intro client member
    constructor
    · intro closed
      obtain ⟨entry, dueEntry, sameFd⟩ := List.mem_map.mp closed
      obtain ⟨other, otherMember, rfl⟩ := known entry dueEntry
      obtain rfl : other = client :=
        List.inj_on_of_nodup_map agreement.tables.distinct otherMember member sameFd
      exact Int.not_lt.mpr (of_decide_eq_true (List.mem_filter.mp dueEntry).2)
    · intro late
      refine List.mem_map.mpr ⟨client.entry, List.mem_filter.mpr ⟨?_, ?_⟩, rfl⟩
      · exact same.mem_iff.mpr (List.mem_map_of_mem member)
      · exact decide_eq_true (Int.not_lt.mp late)
  have kept : (state.clients.filter fun client =>
      client.fd ∉ (due Entry.expire now agenda).map Entry.userData) =
        (state.timerHandler now).clients := by
    apply List.filter_congr
    intro client member
    simp [idle client member]
  rw [kept] at tables
  refine ⟨server', done, ⟨_, formed', ?_⟩, world ▸ tables, ?_, ?_, ?_⟩
  · have left := same.filter fun entry => decide (now < entry.expire)
    rwa [List.filter_map] at left
  · intro client member
    exact agreement.lastSeen client (List.mem_of_mem_filter member)
  · rw [world, timeout, agreement.timeout]
    rfl
  · rw [world, stopServer, agreement.stopServer]
    rfl

theorem clock (agreement : Agreement setup server state) {now : Int} (later : state.clock ≤ now) :
    Agreement setup server { state with clock := now } :=
  ⟨agreement.timers, agreement.tables,
    fun client member => Int.le_trans (agreement.lastSeen client member) later,
    agreement.timeout, agreement.stopServer⟩

theorem timer_eq_iff (agreement : Agreement setup server state) {left right : Client}
    (leftMember : left ∈ state.clients) (rightMember : right ∈ state.clients) :
    left.timer = right.timer ↔ left.fd = right.fd := by
  obtain ⟨agenda, formed, same⟩ := agreement.timers
  have timersDistinct : (state.clients.map Client.entry |>.map Entry.timer).Nodup :=
    (same.map Entry.timer).nodup_iff.mp formed.chain.distinct
  rw [List.map_map] at timersDistinct
  constructor
  · intro sameTimer
    rw [List.inj_on_of_nodup_map timersDistinct leftMember rightMember sameTimer]
  · intro sameFd
    rw [List.inj_on_of_nodup_map agreement.tables.distinct leftMember rightMember sameFd]

theorem without_perm (agreement : Agreement setup server state) {client : Client}
    (member : client ∈ state.clients) {agenda : Agenda Callback Fd}
    (same : agenda.Perm (state.clients.map Client.entry)) :
    (agenda.without client.timer).Perm ((state.drop client.fd).clients.map Client.entry) := by
  have left := same.filter fun entry => decide (entry.timer ≠ client.timer)
  rw [List.filter_map] at left
  have kept : (state.clients.filter
      ((fun entry => decide (entry.timer ≠ client.timer)) ∘ Client.entry)) =
        (state.drop client.fd).clients := by
    apply List.filter_congr
    intro other present
    simp [Client.entry, agreement.timer_eq_iff present member]
  rwa [kept] at left

theorem dropClient_spec (agreement : Agreement setup server state) {client : Client}
    (member : client ∈ state.clients) :
    ∃ server', dropClient setup fuel server client.fd (some client.timer) = .ok server' ∧
      Agreement setup server' (state.drop client.fd) := by
  obtain ⟨agenda, formed, same⟩ := agreement.timers
  obtain ⟨data, closed, tables, timeout, stopServer⟩ := agreement.tables.cbFunc_spec member
  have formedData : WellFormed { server with world := data } agenda :=
    ⟨formed.chain.withWorld data, formed.ordered, formed.allocated⟩
  have live : client.timer ∈ Agenda.addresses agenda :=
    (mem_addresses_iff same).mpr (List.mem_map_of_mem member)
  obtain ⟨server', done, formed', world⟩ := formedData.exec_del (invoke setup) fuel live
  refine ⟨server', ?_, ⟨_, formed', ?_⟩, world ▸ tables, ?_, ?_, ?_⟩
  · unfold dropClient
    rw [closed]
    exact done
  · exact agreement.without_perm member same
  · intro other present
    exact agreement.lastSeen other (List.mem_of_mem_filter present)
  · rw [world, timeout, agreement.timeout]
    rfl
  · rw [world, stopServer, agreement.stopServer]
    rfl

theorem adjust_spec (agreement : Agreement setup server state) {client : Client}
    (member : client ∈ state.clients) {now : Int} (current : state.clock = now)
    (enough : state.clients.length ≤ fuel) :
    ∃ server', server.exec (invoke setup) fuel (.adjust client.timer (now + 3 * TIMESLOT)) =
        .ok server' ∧
      Agreement setup server'
        { state with clients := state.clients.map fun other => other.seen client.fd now } := by
  obtain ⟨agenda, formed, same⟩ := agreement.timers
  have inAgenda : client.entry ∈ agenda := same.mem_iff.mpr (List.mem_map_of_mem member)
  have raised : ∃ entry ∈ agenda, entry.timer = client.timer ∧
      entry.expire ≤ now + 3 * TIMESLOT := by
    have heard := agreement.lastSeen client member
    refine ⟨client.entry, inAgenda, rfl, ?_⟩
    simp only [Client.entry]
    omega
  obtain ⟨server', done, formed', world⟩ := formed.exec_adjust (invoke setup) raised
    (Nat.le_trans (Nat.le_of_eq (agenda_length same)) enough)
  have fds : (state.clients.map fun other => other.seen client.fd now).map Client.fd =
      state.fds := by
    rw [List.map_map]
    apply List.map_congr_left
    intro other _
    simp only [Function.comp_apply, Client.seen]
    split <;> rfl
  refine ⟨server', done, ⟨_, formed', ?_⟩, ?_, ?_, ?_, ?_⟩
  · obtain ⟨left, right, split⟩ := List.append_of_mem member
    have distinct := agreement.tables.distinct
    rw [split] at distinct
    have others : state.clients.filter (fun other => other.fd ≠ client.fd) = left ++ right := by
      rw [split]
      exact filter_key_ne_middle Client.fd distinct
    have moved : (state.clients.map fun other => other.seen client.fd now) =
        left ++ { client with lastSeen := now } :: right := by
      have same : ∀ other ∈ left ++ right, other.seen client.fd now = other := by
        intro other present
        rw [← others] at present
        exact if_neg (by simpa using (List.mem_filter.mp present).2)
      rw [split, List.map_append, List.map_cons,
        List.map_congr_left fun other present => same other (List.mem_append_left _ present),
        List.map_congr_left fun other present => same other (List.mem_append_right _ present)]
      simp [Client.seen]
    have adjusted := Agenda.step_adjust_perm formed.chain.distinct inAgenda (now + 3 * TIMESLOT)
    have rest := agreement.without_perm member same
    simp only [Clients.drop, others] at rest
    rw [moved]
    refine (adjusted.trans (rest.cons _)).trans ?_
    simp only [List.map_append, List.map_cons]
    exact List.perm_middle.symm
  · rw [world]
    constructor
    · intro other present
      obtain ⟨before, beforeMember, rfl⟩ := List.mem_map.mp present
      have users := agreement.tables.users before beforeMember
      unfold Client.seen
      split <;> exact users
    · rw [fds]; exact agreement.tables.isOpen
    · rw [fds]; exact agreement.tables.epoll
    · rw [fds]; exact agreement.tables.distinct
    · rw [fds]; exact agreement.tables.notOwn
    · rw [fds]; exact agreement.tables.inRange
    · exact agreement.tables.closedOnce
  · intro other present
    obtain ⟨before, beforeMember, rfl⟩ := List.mem_map.mp present
    unfold Client.seen
    split
    · exact Int.le_of_eq current.symm
    · exact agreement.lastSeen before beforeMember
  · rw [world, agreement.timeout]
  · rw [world, agreement.stopServer]

/-- An accepted client gets an entry in `users` and a timer. -/
theorem acceptClient_spec (agreement : Agreement setup server state) {answers : Answers}
    (low : 0 ≤ answers.connfd) (high : answers.connfd < FD_LIMIT)
    (notOwn : setup.own answers.connfd = false) (notOpen : answers.connfd ∉ state.fds)
    (fresh : answers.timer ∉ state.timers) (current : state.clock = answers.now)
    (enough : state.clients.length ≤ fuel) :
    ∃ server', acceptClient setup fuel server answers = .ok server' ∧
      Agreement setup server' { state with
        clients := ⟨answers.connfd, answers.timer, answers.now⟩ :: state.clients } := by
  obtain ⟨agenda, formed, same⟩ := agreement.timers
  let data : ServerData := { server.world with
    users := fun other =>
      if other = answers.connfd then
        { sockfd := some answers.connfd, timer := some (some answers.timer) }
      else server.world.users other
    descriptors := (server.world.descriptors.opened answers.connfd).epollAdd answers.connfd () }
  have formedData : WellFormed { server with world := data } agenda :=
    ⟨formed.chain.withWorld data, formed.ordered, formed.allocated⟩
  let entry : Entry Callback Fd :=
    ⟨answers.timer, answers.now + 3 * TIMESLOT, .cbFunc, answers.connfd⟩
  have freshEntry : entry.timer ∉ Agenda.addresses agenda := fun member =>
    fresh ((mem_addresses_iff same).mp member)
  obtain ⟨server', done, formed', world⟩ := formedData.exec_add (invoke setup) freshEntry
    (Nat.le_trans (Nat.le_of_eq (agenda_length same)) enough)
  refine ⟨server', ?_, ⟨_, formed', ?_⟩, ?_, ?_, ?_, ?_⟩
  · have stored : ∀ (before : ServerData) (update : ClientData → ClientData),
        before.storeUser answers.connfd update = .ok { before with
          users := fun other =>
            if other = answers.connfd then update (before.users answers.connfd)
            else before.users other } := by
      intro before update
      unfold ServerData.storeUser
      rw [ServerData.user_eq low high]
      rfl
    unfold acceptClient
    simp only [stored, ok_bind, addfd]
    refine (congrArg (fun data => SortTimerLst.exec (invoke setup) fuel
      { server with world := data } (.add entry)) ?_).trans done
    simp only [data, ServerData.mk.injEq, and_true, and_self]
    funext other
    by_cases new : other = answers.connfd <;> simp [new]
  · exact (enqueue_perm entry agenda).trans (same.cons entry)
  · rw [world]
    have tables := agreement.tables
    constructor
    · intro client member
      rcases List.mem_cons.mp member with rfl | member
      · simp [data]
      · have different : client.fd ≠ answers.connfd := fun same =>
          notOpen (same ▸ List.mem_map_of_mem member)
        simpa [data, different] using tables.users client member
    · intro fd
      have before := tables.isOpen fd
      simp only [data, Descriptors.isOpen_epollAdd, Descriptors.isOpen_opened, before,
        List.map_cons, List.mem_cons]
      exact or_left_comm
    · intro fd
      have before := tables.epoll fd
      simp only [data, Descriptors.epoll_epollAdd, Descriptors.epoll_opened, List.map_cons,
        List.mem_cons]
      by_cases new : fd = answers.connfd
      · simp [new]
      · simp [new, before]
    · exact List.nodup_cons.mpr ⟨notOpen, tables.distinct⟩
    · intro fd member
      rcases List.mem_cons.mp member with rfl | member
      · exact notOwn
      · exact tables.notOwn fd member
    · intro fd member
      rcases List.mem_cons.mp member with rfl | member
      · exact ⟨low, high⟩
      · exact tables.inRange fd member
    · exact tables.closedOnce
  · intro client member
    rcases List.mem_cons.mp member with rfl | member
    · exact Int.le_of_eq current.symm
    · exact agreement.lastSeen client member
  · rw [world, ← agreement.timeout]
  · rw [world, ← agreement.stopServer]

theorem foldl_handleSignal (data : ServerData) (signals : List UInt8) :
    signals.foldl handleSignal data =
      { data with
        timeout := data.timeout || signals.contains SIGALRM
        stopServer := data.stopServer || signals.contains SIGTERM } := by
  induction signals generalizing data with
  | nil => simp
  | cons signal signals ih =>
      have apart : SIGALRM ≠ SIGTERM := by decide
      rw [List.foldl_cons, ih, handleSignal]
      by_cases alarm : signal = SIGALRM
      · subst alarm
        simp [apart.symm]
      · by_cases term : signal = SIGTERM
        · subst term
          simp [apart, apart.symm]
        · simp [alarm, term, Ne.symm alarm, Ne.symm term]

theorem receiveSignals_spec (agreement : Agreement setup server state) (received : Received) :
    Agreement setup { server with world := receiveSignals server.world received }
      (state.receiveSignals received) := by
  obtain ⟨agenda, formed, same⟩ := agreement.timers
  cases received with
  | failed eagain => exact agreement
  | bytes signals =>
      simp only [receiveSignals, Clients.receiveSignals, foldl_handleSignal]
      refine ⟨⟨agenda, ⟨formed.chain.withWorld _, formed.ordered, formed.allocated⟩, same⟩,
        ?_, agreement.lastSeen, ?_, ?_⟩
      · exact ⟨agreement.tables.users, agreement.tables.isOpen, agreement.tables.epoll,
          agreement.tables.distinct, agreement.tables.notOwn, agreement.tables.inRange,
          agreement.tables.closedOnce⟩
      · simp only [agreement.timeout]
      · simp only [agreement.stopServer]

/-- Input from a client is handled with the client's own timer. -/
theorem receiveData_spec (agreement : Agreement setup server state) {client : Client}
    (member : client ∈ state.clients) {answers : Answers} (current : state.clock = answers.now)
    (enough : state.clients.length ≤ fuel) :
    ∃ server', receiveData setup fuel server client.fd answers = .ok server' ∧
      Agreement setup server' (state.receive client.fd answers) := by
  obtain ⟨low, high⟩ := agreement.tables.inRange client.fd (List.mem_map_of_mem member)
  unfold receiveData Clients.receive
  rw [ServerData.user_eq low high]
  simp only [ok_bind, agreement.tables.users client member, initialised]
  cases answers.received with
  | failed eagain =>
      cases eagain with
      | true => exact ⟨server, rfl, agreement⟩
      | false => exact agreement.dropClient_spec member
  | bytes data =>
      cases data with
      | nil => exact agreement.dropClient_spec member
      | cons byte data => exact agreement.adjust_spec member current enough

/-- Every event is handled without a fault and keeps the agreement. -/
theorem handleEvent_spec (agreement : Agreement setup server state)
    {input : EpollEvent × Answers} (watched : state.Watched setup input.1.fd)
    (allowed : state.AnswersAllowed setup input)
    (inTable : input.1.fd = setup.listenfd → input.2.connfd < FD_LIMIT)
    (enough : state.clients.length ≤ fuel) :
    ∃ server', handleEvent setup fuel server input = .ok server' ∧
      Agreement setup server' (state.handleEvent setup input) := by
  obtain ⟨event, answers⟩ := input
  obtain ⟨later, accepts⟩ := allowed
  have advanced := agreement.clock later
  unfold handleEvent Clients.handleEvent
  by_cases listening : event.fd = setup.listenfd
  · obtain ⟨low, notOwn, notOpen, fresh⟩ := accepts listening
    simp only [if_pos listening]
    exact advanced.acceptClient_spec low (inTable listening) notOwn notOpen fresh rfl enough
  · simp only [if_neg listening]
    by_cases signals : event.fd = setup.pipefd0 ∧ event.epollin
    · rw [if_pos signals, if_pos signals]
      exact ⟨_, rfl, advanced.receiveSignals_spec answers.received⟩
    · rw [if_neg signals, if_neg signals]
      by_cases readable : event.epollin
      · rw [if_pos readable, if_pos readable]
        have isClient : event.fd ∈ state.fds := by
          rcases watched with same | same | member
          · exact absurd same listening
          · exact absurd ⟨same, readable⟩ signals
          · exact member
        obtain ⟨client, member, same⟩ := List.mem_map.mp isClient
        change client.fd = event.fd at same
        rw [← same]
        exact advanced.receiveData_spec member rfl enough
      · rw [if_neg readable, if_neg readable]
        exact ⟨server, rfl, advanced⟩

end Agreement

/-! ## Batches -/

namespace Clients

variable {setup : Setup} {state : Clients}

variable (setup) in
theorem length_handleEvent (state : Clients) (input : EpollEvent × Answers) :
    (state.handleEvent setup input).clients.length ≤ state.clients.length + 1 := by
  unfold handleEvent
  simp only
  split
  · exact Nat.le_refl _
  · split
    · unfold receiveSignals
      split <;> exact Nat.le_succ _
    · split
      · unfold receive
        split
        · exact Nat.le_succ _
        · exact Nat.le_succ_of_le (List.length_filter_le _ _)
        · exact Nat.le_succ_of_le (List.length_filter_le _ _)
        · simp
      · exact Nat.le_succ _

variable (setup) in
theorem length_events (state : Clients) (events : List (EpollEvent × Answers)) :
    (events.foldl (handleEvent setup) state).clients.length ≤
      state.clients.length + events.length := by
  induction events generalizing state with
  | nil => exact Nat.le_refl _
  | cons input events ih =>
      have later := ih (state.handleEvent setup input)
      have once := state.length_handleEvent setup input
      rw [List.foldl_cons, List.length_cons]
      omega

theorem length_handleBatch (state : Clients) (batch : Batch) :
    (state.handleBatch setup batch).clients.length ≤
      state.clients.length + batch.events.length := by
  have events := state.length_events setup batch.events
  unfold handleBatch
  simp only
  split
  · exact Nat.le_trans (List.length_filter_le _ _) events
  · exact events

theorem watched_handleEvent {input : EpollEvent × Answers} {fd : Fd}
    (watched : state.Watched setup fd) (other : fd ≠ input.1.fd) :
    (state.handleEvent setup input).Watched setup fd := by
  rcases watched with listening | signals | member
  · exact .inl listening
  · exact .inr (.inl signals)
  · apply Or.inr
    apply Or.inr
    obtain ⟨client, present, rfl⟩ := List.mem_map.mp member
    unfold handleEvent
    simp only
    split
    · exact List.mem_cons_of_mem _ member
    · split
      · unfold receiveSignals
        split <;> exact member
      · split
        · unfold receive
          split
          · exact member
          · exact List.mem_map_of_mem (List.mem_filter.mpr ⟨present, by simpa using other⟩)
          · exact List.mem_map_of_mem (List.mem_filter.mpr ⟨present, by simpa using other⟩)
          · refine List.mem_map.mpr ⟨client.seen input.1.fd input.2.now, List.mem_map_of_mem present, ?_⟩
            unfold Client.seen
            split <;> rfl
        · exact member

end Clients

namespace Agreement

variable {setup : Setup} {server : Server} {state : Clients} {fuel : Nat}

/-- All events of a batch: each is for a descriptor that is still watched when
its turn comes, since only the event of a client closes it. -/
theorem handleEvents_spec (agreement : Agreement setup server state)
    {events : List (EpollEvent × Answers)} (distinct : (events.map fun input => input.1.fd).Nodup)
    (watched : ∀ input ∈ events, state.Watched setup input.1.fd)
    (answers : AllowedRun (Clients.AnswersAllowed setup) (Clients.handleEvent setup) state events)
    (inTable : ∀ input ∈ events, input.1.fd = setup.listenfd → input.2.connfd < FD_LIMIT)
    (enough : state.clients.length + events.length ≤ fuel) :
    ∃ server', runOps (handleEvent setup fuel) server events = .ok server' ∧
      Agreement setup server' (events.foldl (Clients.handleEvent setup) state) := by
  induction events generalizing server state with
  | nil => exact ⟨server, rfl, agreement⟩
  | cons input events ih =>
      obtain ⟨allowed, answersRest⟩ := answers
      obtain ⟨unrepeated, distinctRest⟩ := List.nodup_cons.mp distinct
      rw [List.length_cons] at enough
      have enoughFirst : state.clients.length ≤ fuel := by omega
      obtain ⟨server₁, handled, agreement₁⟩ := agreement.handleEvent_spec
        (watched input List.mem_cons_self) allowed (inTable input List.mem_cons_self) enoughFirst
      have watchedRest : ∀ other ∈ events,
          (state.handleEvent setup input).Watched setup other.1.fd := by
        intro other member
        apply Clients.watched_handleEvent (watched other (List.mem_cons_of_mem _ member))
        intro same
        exact unrepeated (List.mem_map.mpr ⟨other, member, same⟩)
      have grown := state.length_handleEvent setup input
      obtain ⟨server', done, agreement'⟩ := ih agreement₁ distinctRest watchedRest answersRest
        (fun other member => inTable other (List.mem_cons_of_mem _ member)) (by omega)
      refine ⟨server', ?_, agreement'⟩
      unfold runOps
      rw [handled]
      exact done

theorem handleBatch_spec (agreement : Agreement setup server state) {batch : Batch}
    (allowed : state.BatchAllowed setup batch)
    (inTable : batch.InTable setup)
    (enough : state.clients.length + batch.events.length ≤ fuel) :
    ∃ server', handleBatch setup fuel server batch = .ok server' ∧
      Agreement setup server' (state.handleBatch setup batch) := by
  obtain ⟨server₁, handled, agreement₁⟩ := agreement.handleEvents_spec allowed.distinct
    allowed.watched allowed.answers inTable enough
  have advanced := agreement₁.clock allowed.clock
  have length := state.length_events setup batch.events
  unfold handleBatch Clients.handleBatch
  rw [handled]
  simp only [ok_bind, agreement₁.timeout]
  generalize batch.events.foldl (Clients.handleEvent setup) state = later at *
  cases timeout : later.timeout with
  | false =>
      simp only [Bool.false_eq_true, ↓reduceIte]
      rw [timeout] at advanced
      exact ⟨server₁, rfl, advanced⟩
  | true =>
      rw [timeout] at advanced
      obtain ⟨server', ticked, agreement'⟩ :=
        advanced.timerHandler_spec batch.now (Nat.le_trans length enough)
      simp only [↓reduceIte, ticked, ok_bind, pure_eq_ok]
      obtain ⟨agenda, formed, same⟩ := agreement'.timers
      refine ⟨{ server' with world := { server'.world with timeout := false } }, rfl,
        ⟨agenda, ⟨formed.chain.withWorld _, formed.ordered, formed.allocated⟩, same⟩, ?_,
        agreement'.lastSeen, rfl, agreement'.stopServer⟩
      exact ⟨agreement'.tables.users, agreement'.tables.isOpen, agreement'.tables.epoll,
        agreement'.tables.distinct, agreement'.tables.notOwn, agreement'.tables.inRange,
        agreement'.tables.closedOnce⟩

theorem round_spec (agreement : Agreement setup server state) {batch : Batch}
    (allowed : state.RoundAllowed setup batch) (inTable : batch.InTable setup)
    (enough : state.clients.length + batch.events.length ≤ fuel) :
    ∃ server', (if server.world.stopServer then .ok server
        else handleBatch setup fuel server batch) = .ok server' ∧
      Agreement setup server' (state.round setup batch) := by
  unfold Clients.round
  rw [agreement.stopServer]
  cases stopped : state.stopServer with
  | true => exact ⟨server, rfl, agreement⟩
  | false => exact agreement.handleBatch_spec (allowed stopped) inTable enough

end Agreement

/-- `users[client.fd]` and the client's timer point to each other, and no other
live timer is for this client. -/
structure OwnsTimer (server : Server) (client : Client) : Prop where
  user : server.world.users client.fd =
    { sockfd := some client.fd, timer := some (some client.timer) }
  timer : ∃ node, server.timers client.timer = some node ∧ node.userData = client.fd ∧
    node.expire = client.lastSeen + 3 * TIMESLOT
  only : ∀ other node, server.timers other = some node → node.userData = client.fd →
    other = client.timer

namespace Agreement

variable {setup : Setup} {server : Server} {state : Clients}

theorem of_live (agreement : Agreement setup server state) {timer : Addr}
    {node : UtilTimer Callback Fd} (live : server.timers timer = some node) :
    ∃ client ∈ state.clients, client.timer = timer ∧ node.userData = client.fd ∧
      node.expire = client.lastSeen + 3 * TIMESLOT := by
  obtain ⟨agenda, formed, same⟩ := agreement.timers
  have listed := (formed.allocated timer).mp (by rw [live]; rfl)
  obtain ⟨client, member, rfl⟩ := List.mem_map.mp ((mem_addresses_iff same).mp listed)
  obtain ⟨node', found, expire, -, userData⟩ :=
    formed.chain.found client.entry (same.mem_iff.mpr (List.mem_map_of_mem member))
  obtain rfl : node' = node := Option.some.inj (found.symm.trans live)
  exact ⟨client, member, rfl, userData, expire⟩

theorem ownsTimer (agreement : Agreement setup server state) {client : Client}
    (member : client ∈ state.clients) : OwnsTimer server client := by
  obtain ⟨agenda, formed, same⟩ := agreement.timers
  constructor
  · exact agreement.tables.users client member
  · obtain ⟨node, found, expire, -, userData⟩ :=
      formed.chain.found client.entry (same.mem_iff.mpr (List.mem_map_of_mem member))
    exact ⟨node, found, userData, expire⟩
  · intro other node live sameClient
    obtain ⟨owner, ownerMember, rfl, userData, -⟩ := agreement.of_live live
    exact (agreement.timer_eq_iff ownerMember member).mpr (userData.symm.trans sameClient)

end Agreement

theorem Clients.length_round {setup : Setup} (state : Clients) (batch : Batch) :
    (state.round setup batch).clients.length ≤ state.clients.length + batch.events.length := by
  unfold round
  split
  · exact Nat.le_add_right _ _
  · exact state.length_handleBatch batch

/-- As long as every accepted descriptor has an entry in `users`, the server runs
through any sequence of batches without touching a freed timer, and after each
of them its timers, its table and the kernel agree on the open clients: those
accepted, not closed by their peer or an error, and not found idle since. -/
theorem timeoutServer_agreement (setup : Setup) (now : Int) (batches : List Batch)
    (allowed : AllowedRun (Clients.RoundAllowed setup) (Clients.round setup) { clock := now }
      batches)
    (inTable : ∀ batch ∈ batches, batch.InTable setup) (fuel : Nat)
    (enough : (batches.map fun batch => batch.events.length).sum ≤ fuel) :
    ∃ server, serve setup fuel (start setup) batches = .ok server ∧
      Agreement setup server (batches.foldl (Clients.round setup) { clock := now }) ∧
      (∀ fd, server.world.descriptors.isOpen fd = true → setup.own fd = false →
        ∃ client ∈ (batches.foldl (Clients.round setup) { clock := now }).clients,
          client.fd = fd ∧ OwnsTimer server client) ∧
      ∀ timer, (server.timers timer).isSome = true →
        ∃ client ∈ (batches.foldl (Clients.round setup) { clock := now }).clients,
          client.timer = timer ∧ server.world.descriptors.isOpen client.fd = true := by
  have bounded : AllowedRun (fun state batch =>
      (Clients.RoundAllowed setup state batch ∧ batch.InTable setup) ∧
        state.clients.length + batch.events.length ≤ fuel) (Clients.round setup)
        { clock := now } batches :=
    (allowed.and_mem inTable).and_bound Clients.length_round (by simpa using enough)
  obtain ⟨server, served, agreement⟩ := runOps_refines
    (fun _ _ _ agreement allowed => agreement.round_spec allowed.1.1 allowed.1.2 allowed.2)
    (agreement_start setup now) bounded
  refine ⟨server, served, agreement, ?_, ?_⟩
  · intro fd isOpen notOwn
    rcases (agreement.tables.isOpen fd).mp isOpen with own | member
    · exact absurd own (by simp [notOwn])
    · obtain ⟨client, present, rfl⟩ := List.mem_map.mp member
      exact ⟨client, present, rfl, agreement.ownsTimer present⟩
  · intro timer live
    obtain ⟨node, found⟩ := Option.isSome_iff_exists.mp live
    obtain ⟨client, member, rfl, -⟩ := agreement.of_live found
    exact ⟨client, member, rfl,
      (agreement.tables.isOpen client.fd).mpr (.inr (List.mem_map_of_mem member))⟩

/-- A server with the standard streams and its own descriptors open. -/
def sampleSetup : Setup where
  listenfd := 3
  pipefd0 := 5
  epollfd := 4
  own fd := decide (0 ≤ fd ∧ fd ≤ 6)
  listenfd_own := by decide
  pipefd0_own := by decide
  listenfd_ne_pipefd0 := by decide

/-- Two clients; one is heard of again, the other one closes; the alarm finds the
first one idle; its descriptor and the address of its timer are used again. -/
def sampleBatches : List Batch :=
  [⟨[(⟨3, true⟩, ⟨7, 1, 0, .bytes []⟩)], 0⟩,
    ⟨[(⟨3, true⟩, ⟨8, 2, 1, .bytes []⟩), (⟨7, true⟩, ⟨0, 0, 2, .bytes [65]⟩)], 2⟩,
    ⟨[(⟨8, true⟩, ⟨0, 0, 9, .bytes []⟩), (⟨5, true⟩, ⟨0, 0, 17, .bytes [14]⟩)], 17⟩,
    ⟨[(⟨3, true⟩, ⟨7, 1, 18, .bytes []⟩)], 18⟩]

theorem timeoutServer_agreement_sampleBatches :
    ∃ server, serve sampleSetup 6 (start sampleSetup) sampleBatches = .ok server ∧
      Agreement sampleSetup server
        (sampleBatches.foldl (Clients.round sampleSetup) { clock := 0 }) ∧
      (∀ fd, server.world.descriptors.isOpen fd = true → sampleSetup.own fd = false →
        ∃ client ∈ (sampleBatches.foldl (Clients.round sampleSetup) { clock := 0 }).clients,
          client.fd = fd ∧ OwnsTimer server client) ∧
      ∀ timer, (server.timers timer).isSome = true →
        ∃ client ∈ (sampleBatches.foldl (Clients.round sampleSetup) { clock := 0 }).clients,
          client.timer = timer ∧ server.world.descriptors.isOpen client.fd = true :=
  timeoutServer_agreement sampleSetup 0 sampleBatches (by decide) (by decide) 6 (by decide)

/-- The first connection gets the first descriptor without an entry in `users`. -/
def overflowingBatches : List Batch := [⟨[(⟨3, true⟩, ⟨0xffff, 1, 0, .bytes []⟩)], 0⟩]

/-- `users` has no entry for a descriptor from `FD_LIMIT` on, and nothing checks
for it. -/
theorem timeoutServer_overflow :
    AllowedRun (Clients.RoundAllowed sampleSetup) (Clients.round sampleSetup) { clock := 0 }
        overflowingBatches ∧
      serve sampleSetup 1 (start sampleSetup) overflowingBatches = .error .outOfBounds ∧
      ¬ ∃ server, serve sampleSetup 1 (start sampleSetup) overflowingBatches = .ok server ∧
        Agreement sampleSetup server
          (overflowingBatches.foldl (Clients.round sampleSetup) { clock := 0 }) := by
  have failed : serve sampleSetup 1 (start sampleSetup) overflowingBatches =
      .error .outOfBounds := rfl
  refine ⟨by decide, failed, ?_⟩
  rintro ⟨server, served, -⟩
  rw [failed] at served
  cases served

end HPLinuxServer.Execution
