import HPLinuxServer.Execution.ChatroomDelivery
import HPLinuxServer.Execution.ChatroomServerProperties

/-!
# Chat room server: the rounds of the loop

Which calls the loop makes, where the clients are in the table, and what the stores of a round
leave as it was.
-/

set_option autoImplicit false

namespace HPLinuxServer.Execution

open Memory Kernel

namespace Chatroom

/-- `poll` is called behind the loop, and the rounds are those of the loop; `accept` returns
a descriptor that is not open. -/
def InTurn (room : Chatroom) : RoomOp → Prop
  | .poll _ => room.table.userCounter < room.index
  | .round results => room.index ≤ room.table.userCounter ∧
      (room.index = 0 → 0 ≤ results.connfd →
        room.table.descriptors.isOpen results.connfd = false)

instance (room : Chatroom) : ∀ op, Decidable (room.InTurn op)
  | .poll _ => inferInstanceAs (Decidable (room.table.userCounter < room.index))
  | .round results => inferInstanceAs (Decidable (room.index ≤ room.table.userCounter ∧
      (room.index = 0 → 0 ≤ results.connfd →
        room.table.descriptors.isOpen results.connfd = false)))

/-- The position of a client in the table. -/
structure Client (room : Chatroom) (position : Nat) (entry : PollFd) : Prop where
  first : 1 ≤ position
  last : (position : Int) ≤ room.table.userCounter
  found : room.table.fds[position]? = some (some entry)

variable {setup : ChatroomSetup} {room : Chatroom}

/-! ## The clients of the table -/

section Table

variable {clients : List PollFd} {position other : Nat} {entry entry' : PollFd}

theorem client_iff (table : ChatroomServer.Table setup room.table clients) :
    room.Client position entry ↔ ∃ place, position = place + 1 ∧ clients[place]? = some entry := by
  obtain ⟨listening, rest, fds, -⟩ := table.fds
  have counter := table.counter
  have at_place : ∀ place, place < clients.length →
      room.table.fds[place + 1]? = (clients[place]?).map some := by
    intro place inside
    rw [fds, List.getElem?_cons_succ, List.getElem?_append_left (by rwa [List.length_map]),
      List.getElem?_map]
  constructor
  · rintro ⟨first, last, found⟩
    refine ⟨position - 1, by omega, ?_⟩
    have here := at_place (position - 1) (by omega)
    rw [Nat.sub_add_cancel first, found] at here
    obtain ⟨client, there, same⟩ := Option.map_eq_some_iff.mp here.symm
    rw [there, Option.some.inj same]
  · rintro ⟨place, rfl, found⟩
    have inside := (List.getElem?_eq_some_iff.mp found).1
    refine ⟨by omega, by omega, ?_⟩
    rw [at_place place inside, found]
    rfl

theorem Client.mem (client : room.Client position entry)
    (table : ChatroomServer.Table setup room.table clients) : entry ∈ clients := by
  obtain ⟨place, -, found⟩ := (client_iff table).mp client
  exact List.mem_of_getElem? found

theorem Client.ne_fd (client : room.Client position entry) (client' : room.Client other entry')
    (table : ChatroomServer.Table setup room.table clients) (apart : position ≠ other) :
    entry.fd ≠ entry'.fd := by
  intro same
  obtain ⟨place, rfl, found⟩ := (client_iff table).mp client
  obtain ⟨place', rfl, found'⟩ := (client_iff table).mp client'
  have inside : place < (clients.map PollFd.fd).length := by
    rw [List.length_map]
    exact (List.getElem?_eq_some_iff.mp found).1
  have equal : place = place' := by
    apply (List.getElem?_inj inside table.distinct).mp
    rw [List.getElem?_map, List.getElem?_map, found, found']
    exact congrArg some same
  exact apart (congrArg (· + 1) equal)

theorem Client.split (client : room.Client position entry)
    (table : ChatroomServer.Table setup room.table clients) :
    ∃ kept pending, clients = kept ++ entry :: pending ∧ position = kept.length + 1 := by
  obtain ⟨place, rfl, found⟩ := (client_iff table).mp client
  obtain ⟨inside, value⟩ := List.getElem?_eq_some_iff.mp found
  refine ⟨clients.take place, clients.drop (place + 1), ?_, ?_⟩
  · rw [← value, List.getElem_cons_drop, List.take_append_drop]
  · rw [List.length_take, Nat.min_eq_left (Nat.le_of_lt inside)]

theorem Client.entry_eq (client : room.Client position entry)
    (table : ChatroomServer.Table setup room.table clients) :
    room.table.entry position = .ok entry := by
  obtain ⟨kept, pending, rfl, rfl⟩ := client.split table
  exact table.entry_eq

theorem client_exists (table : ChatroomServer.Table setup room.table clients)
    (first : 1 ≤ position) (last : (position : Int) ≤ room.table.userCounter) :
    ∃ entry, room.Client position entry := by
  have counter := table.counter
  have found := List.getElem?_eq_getElem (by omega : position - 1 < clients.length)
  exact ⟨_, (client_iff table).mpr ⟨position - 1, by omega, found⟩⟩

theorem round_cases (table : ChatroomServer.Table setup room.table clients) (index : 0 ≤ room.index)
    (inside : room.index ≤ room.table.userCounter) :
    room.index = 0 ∨ ∃ position entry, room.index = (position : Nat) ∧ room.Client position entry := by
  rcases Int.eq_ofNat_of_zero_le index with ⟨position, here⟩
  rcases Nat.eq_zero_or_pos position with rfl | positive
  · exact .inl here
  · right
    obtain ⟨entry, client⟩ := client_exists table positive (by omega)
    exact ⟨position, entry, here, client⟩

end Table

/-! ## The stores -/

section Stores

variable {fd other : Fd} {client : ClientData} {index position : Nat} {events : PollEvents}

theorem user_eq (range : 0 ≤ fd ∧ fd < chatFdLimit) : room.user fd = .ok (room.users fd) :=
  if_pos range

theorem storeUser_eq (range : 0 ≤ fd ∧ fd < chatFdLimit) :
    room.storeUser fd client = .ok (room.setUser fd client) := if_pos range

@[simp] theorem setUser_self : (room.setUser fd client).users fd = client := if_pos rfl

@[simp] theorem setUser_table : (room.setUser fd client).table = room.table := rfl

@[simp] theorem setUser_events : (room.setUser fd client).events = room.events := rfl

@[simp] theorem setUser_index : (room.setUser fd client).index = room.index := rfl

@[simp] theorem setUser_log : (room.setUser fd client).log = room.log := rfl

theorem setUser_other (apart : other ≠ fd) : (room.setUser fd client).users other = room.users other :=
  if_neg apart

theorem setUser_setUser {later : ClientData} :
    (room.setUser fd client).setUser fd later = room.setUser fd later := by
  unfold setUser
  congr 1
  funext other
  by_cases self : other = fd
  · rw [if_pos self, if_pos self]
  · rw [if_neg self, if_neg self]
    exact if_neg self

@[simp] theorem storeEvents_self : (room.storeEvents index events).events index = events :=
  if_pos rfl

@[simp] theorem storeEvents_table : (room.storeEvents index events).table = room.table := rfl

@[simp] theorem storeEvents_users : (room.storeEvents index events).users = room.users := rfl

@[simp] theorem storeEvents_index : (room.storeEvents index events).index = room.index := rfl

@[simp] theorem storeEvents_log : (room.storeEvents index events).log = room.log := rfl

theorem storeEvents_other (apart : position ≠ index) :
    (room.storeEvents index events).events position = room.events position := if_neg apart

end Stores

/-! ## The broadcast -/

theorem raised (events : PollEvents) : (events ||| ~~~POLLIN ||| POLLOUT) &&& POLLOUT ≠ 0 := by
  intro lowered
  have bit := congrArg (fun word : PollEvents => word.getLsbD 2) lowered
  simp [POLLIN, POLLOUT] at bit

/-- What the loop over the clients from this position on does. -/
structure Broadcasts (room room' : Chatroom) (connfd : Fd) (first : Nat) : Prop where
  table : room'.table = room.table
  index : room'.index = room.index
  log : room'.log = room.log
  buffers : ∀ fd, (room'.users fd).buf = (room.users fd).buf
  pointers : ∀ fd, (room'.users fd).writeBuf = (room.users fd).writeBuf ∨
    (room'.users fd).writeBuf = .buf connfd
  sender : (room'.users connfd).writeBuf = (room.users connfd).writeBuf
  own : ∀ position entry, room.Client position entry → entry.fd = connfd →
    room'.events position = room.events position
  before : ∀ position, position < first → room'.events position = room.events position
  earlier : ∀ position entry, room.Client position entry → position < first →
    (room'.users entry.fd).writeBuf = (room.users entry.fd).writeBuf
  told : ∀ position entry, room.Client position entry → first ≤ position → entry.fd ≠ connfd →
    (room'.users entry.fd).writeBuf = .buf connfd ∧ room'.events position &&& POLLOUT ≠ 0

theorem Client.unique {position : Nat} {entry entry' : PollFd} (client : room.Client position entry)
    (client' : room.Client position entry') : entry = entry' :=
  Option.some.inj (Option.some.inj (client.found.symm.trans client'.found))

theorem broadcast_spec {clients : List PollFd}
    (table : ChatroomServer.Table setup room.table clients)
    (range : ∀ position entry, room.Client position entry → 0 ≤ entry.fd ∧ entry.fd < chatFdLimit)
    (connfd : Fd) {first rounds : Nat} (positive : 1 ≤ first)
    (last : (first : Int) + rounds = room.table.userCounter + 1) :
    ∃ room', room.broadcast connfd first rounds = .ok room' ∧ Broadcasts room room' connfd first := by
  induction rounds generalizing room first with
  | zero =>
      refine ⟨room, rfl, rfl, rfl, rfl, fun _ => rfl, fun _ => .inl rfl, rfl, fun _ _ _ _ => rfl,
        fun _ _ => rfl, fun _ _ _ _ => rfl, fun position entry client behind _ => ?_⟩
      have inside := client.last
      omega
  | succ rounds ih =>
      obtain ⟨entry, here⟩ := client_exists table positive (by omega)
      rw [broadcast, here.entry_eq table, ok_bind]
      by_cases own : entry.fd = connfd
      · rw [if_pos own]
        obtain ⟨room', done, later⟩ := ih table range (Nat.le_succ_of_le positive) (by omega)
        refine ⟨room', done, later.table, later.index, later.log, later.buffers, later.pointers,
          later.sender, later.own, fun position front => later.before position (by omega),
          fun position client' other front => later.earlier position client' other (by omega),
          fun position client' other behind apart => ?_⟩
        refine later.told position client' other ?_ apart
        have different : position ≠ first := by
          rintro rfl
          exact apart (other.unique here ▸ own)
        omega
      · have inRange := range first entry here
        rw [if_neg own]
        let events := room.events first ||| ~~~POLLIN ||| POLLOUT
        let told : ClientData := { room.users entry.fd with writeBuf := .buf connfd }
        let next := (room.storeEvents first events).setUser entry.fd told
        have same : ∀ position client, next.Client position client ↔ room.Client position client :=
          fun position client => ⟨fun there => { there with }, fun there => { there with }⟩
        have nextTable : ChatroomServer.Table setup next.table clients := table
        obtain ⟨room', done, later⟩ := ih nextTable
          (fun position client there => range position client ((same position client).mp there))
          (Nat.le_succ_of_le positive) (by
            simp only [next, setUser_table, storeEvents_table]
            omega)
        refine ⟨room', ?_, later.table, later.index, later.log, ?_, ?_, ?_, ?_, ?_, ?_, ?_⟩
        · dsimp only
          rw [user_eq inRange, ok_bind, storeUser_eq inRange, ok_bind]
          exact done
        · intro fd
          rw [later.buffers fd]
          by_cases self : fd = entry.fd
          · rw [self, setUser_self]
          · rw [setUser_other self]
            rfl
        · intro fd
          by_cases self : fd = entry.fd
          · subst self
            refine .inr ((later.pointers entry.fd).elim (fun same => ?_) id)
            rw [same, setUser_self]
          · have same : (next.users fd).writeBuf = (room.users fd).writeBuf :=
              congrArg ClientData.writeBuf (setUser_other self)
            rw [← same]
            exact later.pointers fd
        · rw [later.sender, setUser_other (Ne.symm own)]
          rfl
        · intro position client there isSender
          have different : position ≠ first := by
            rintro rfl
            exact own (there.unique here ▸ isSender)
          rw [later.own position client ((same position client).mpr there) isSender]
          exact storeEvents_other different
        · intro position front
          rw [later.before position (by omega)]
          exact storeEvents_other (by omega)
        · intro position client there front
          have apart := there.ne_fd here table (by omega)
          rw [later.earlier position client ((same position client).mpr there) (by omega),
            setUser_other apart]
          rfl
        · intro position client there behind apart
          rcases Nat.eq_or_lt_of_le behind with rfl | further
          · obtain rfl := there.unique here
            rw [later.earlier first client ((same first client).mpr there) (Nat.lt_succ_self _),
              later.before first (Nat.lt_succ_self _)]
            refine ⟨by rw [setUser_self], ?_⟩
            simp only [next, setUser_events, storeEvents_self]
            exact raised _
          · exact later.told position client ((same position client).mpr there) further apart

/-! ## The branches -/

section Branches

variable {clients kept pending : List PollFd} {entry final : PollFd} {connfd : Fd}

/-- A client is sent away, or it is the next of the table and has a record. -/
theorem acceptClient_spec (table : ChatroomServer.Table setup room.table clients)
    (unused : 0 ≤ connfd → room.table.descriptors.isOpen connfd = false)
    (hasRecord : room.table.userCounter < (ChatroomServer.userLimit : Int) →
      connfd < chatFdLimit) :
    ∃ table',
      (ChatroomServer.Table setup table' clients ∧ table'.fds = room.table.fds ∧
          table'.userCounter = room.table.userCounter ∧
          room.acceptClient connfd = .ok { room with table := table' }) ∨
        ChatroomServer.Table setup table' (clients ++ [⟨connfd, 0⟩]) ∧
          (0 ≤ connfd ∧ connfd < chatFdLimit) ∧
          table'.fds = room.table.fds.set (clients.length + 1) (some ⟨connfd, 0⟩) ∧
          table'.userCounter = room.table.userCounter + 1 ∧
          room.acceptClient connfd = .ok
            (({ room.setUser connfd (room.users connfd) with table := table' }.storeEvents
              (clients.length + 1) (POLLIN ||| POLLRDHUP ||| POLLERR)).record
                (.joined connfd)) := by
  unfold Chatroom.acceptClient
  obtain ⟨table', accepted, ⟨away, isTable, fds, same⟩ | ⟨stays, isTable, fds, more⟩⟩ :=
    table.acceptClient_spec unused
  · rw [accepted, ok_bind, if_pos away]
    exact ⟨table', .inl ⟨isTable, fds, same, rfl⟩⟩
  · obtain ⟨succeeded, free⟩ := not_or.mp stays
    have inRange : 0 ≤ connfd ∧ connfd < chatFdLimit :=
      ⟨Int.not_lt.mp succeeded, hasRecord (Int.not_le.mp free)⟩
    have counter := table.counter
    have place : table'.userCounter.toNat = clients.length + 1 := by omega
    rw [accepted, ok_bind, if_neg stays, user_eq inRange, ok_bind, storeUser_eq inRange, ok_bind]
    exact ⟨table', .inr ⟨isTable, inRange, fds, more, by simp only [place, pure_eq_ok]⟩⟩

/-- The last client is moved to the gap. -/
theorem removeClient_spec (table : ChatroomServer.Table setup room.table (kept ++ entry :: pending))
    (here : room.index = (kept.length + 1 : Nat))
    (range : ∀ client ∈ kept ++ entry :: pending, 0 ≤ client.fd ∧ client.fd < chatFdLimit) :
    ∃ final table' pending', room.Client (kept ++ entry :: pending).length final ∧
      ChatroomServer.Table setup table' (kept ++ pending') ∧ pending'.Perm pending ∧
      table'.fds = room.table.fds.set (kept.length + 1) (some final) ∧
      table'.userCounter = room.table.userCounter - 1 ∧
      room.removeClient entry.fd = .ok
        ({ (room.setUser entry.fd (room.users final.fd)).storeEvents (kept.length + 1)
            (room.events (kept ++ entry :: pending).length) with
          table := table', index := (kept.length : Nat) }.record (.left entry.fd)) := by
  have counter := table.counter
  obtain ⟨table', pending', last, removed, isTable, perm, found, fds, fewer⟩ :=
    table.removeClient_spec
  obtain ⟨final, atEnd⟩ : ∃ final, room.Client (kept ++ entry :: pending).length final :=
    client_exists table (by simp; omega) (by omega)
  obtain rfl : final = last := by
    have there := atEnd.entry_eq table
    rw [← counter, found] at there
    exact (Except.ok.inj there).symm
  refine ⟨final, table', pending', atEnd, isTable, perm, fds, fewer, ?_⟩
  unfold Chatroom.removeClient
  rw [found, ok_bind, user_eq (range final (atEnd.mem table)), ok_bind,
    storeUser_eq (range entry (by simp)), ok_bind, setUser_table, setUser_index, setUser_events,
    here, removed, ok_bind, Int.toNat_natCast, counter, Int.toNat_natCast]
  rfl

/-- The buffer is cleared, and stays so if `recv` fails. -/
theorem receive_none {results : RoundResults} (range : 0 ≤ connfd ∧ connfd < chatFdLimit)
    (received : results.bytes = none) :
    room.receive connfd results =
      if results.eagain then
        .ok (room.setUser connfd
          { room.users connfd with buf := some (Buffer.zero chatBufferSize) })
      else (room.setUser connfd
        { room.users connfd with buf := some (Buffer.zero chatBufferSize) }).removeClient connfd := by
  unfold Chatroom.receive
  rw [user_eq range, ok_bind]
  dsimp only
  rw [storeUser_eq range, ok_bind, received]
  rfl

theorem receive_some {results : RoundResults} {bytes : Text}
    (range : 0 ≤ connfd ∧ connfd < chatFdLimit) (received : results.bytes = some bytes) :
    room.receive connfd results =
      ((room.setUser connfd { room.users connfd with
        buf := some ((Buffer.zero chatBufferSize).copyIn 0 bytes) }).record
          (.posted connfd bytes)).broadcast connfd 1 room.table.userCounter.toNat := by
  unfold Chatroom.receive
  rw [user_eq range, ok_bind]
  dsimp only
  rw [storeUser_eq range, ok_bind, received]
  dsimp only
  rw [user_eq range, ok_bind, storeUser_eq range, ok_bind, setUser_self, setUser_setUser]
  rfl

theorem write_null (range : 0 ≤ connfd ∧ connfd < chatFdLimit)
    (target : (room.users connfd).writeBuf = .null) :
    room.write connfd = .ok (room.record (.handed connfd [])) := by
  unfold Chatroom.write
  rw [user_eq range, ok_bind, target]
  rfl

theorem write_buf {sender : Fd} {buf : Buffer chatBufferSize} {text : Text}
    (range : 0 ≤ connfd ∧ connfd < chatFdLimit)
    (target : (room.users connfd).writeBuf = .buf sender)
    (senderRange : 0 ≤ sender ∧ sender < chatFdLimit)
    (held : (room.users sender).buf = some buf) (holds : buf.Holds 0 text) :
    room.write connfd = .ok
      (((room.record (.handed connfd text)).setUser connfd
        { room.users connfd with writeBuf := .null }).storeEvents room.index.toNat
          (room.events room.index.toNat ||| ~~~POLLOUT ||| POLLIN)) := by
  have found : room.pendingText sender = .ok text := by
    unfold pendingText
    rw [user_eq senderRange, ok_bind, held]
    exact holds.text_eq
  unfold Chatroom.write
  rw [user_eq range, ok_bind, target]
  dsimp only
  rw [found, ok_bind, storeUser_eq range, ok_bind]
  rfl

end Branches

theorem length_bytes_lt {results : RoundResults} {bytes : Text}
    (received : results.bytes = some bytes) : bytes.length < chatBufferSize := by
  obtain ⟨whole, -, rfl⟩ := Option.map_eq_some_iff.mp received
  have room : chatBufferSize = 64 := rfl
  rw [List.length_take]
  omega

/-- What `poll` reports for the entries. -/
theorem polled_fds (table : ChatroomServer) (revents : Nat → PollEvents) {position : Nat}
    (inside : (position : Int) ≤ table.userCounter) :
    (table.polled revents).fds[position]? = table.fds[position]?.map
      (Option.map fun entry => { entry with revents := revents position }) := by
  unfold ChatroomServer.polled
  dsimp only
  by_cases short : position < table.fds.length
  · rw [List.getElem?_append_left (by
        rw [List.length_mapIdx, List.length_take]
        omega), List.getElem?_mapIdx, List.getElem?_take_of_lt (by omega)]
  · rw [List.getElem?_eq_none (by omega : table.fds.length ≤ position), List.getElem?_append_right (by
        rw [List.length_mapIdx, List.length_take]
        omega), List.getElem?_drop, List.getElem?_eq_none]
    · rfl
    · rw [List.length_mapIdx, List.length_take]
      omega

end Chatroom

end HPLinuxServer.Execution
