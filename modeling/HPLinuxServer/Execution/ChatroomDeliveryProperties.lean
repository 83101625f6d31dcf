import HPLinuxServer.Execution.ChatroomRounds
import HPLinuxServer.Memory.CString

/-!
# Chat room server: delivery of the messages

A client that is still to be sent something has a pointer to the buffer that holds it. As long
as nobody stores to that buffer, the client is sent what the others have written.
-/

set_option autoImplicit false

namespace HPLinuxServer.Execution

open Memory Kernel Refinement Messaging

namespace Chatroom

/-- The positions of the clients that the round is not for. -/
def others (room : Chatroom) : List Nat :=
  (List.range (room.table.userCounter + 1).toNat).filter fun position =>
    1 ≤ position ∧ (position : Int) ≠ room.index

/-- The client whose buffer has what the one at this position is still to be sent. -/
def awaits (room : Chatroom) (position : Nat) : Option Fd :=
  match room.table.fds[position]? with
  | some (some entry) =>
      if room.events position &&& POLLOUT ≠ 0 then
        match (room.users entry.fd).writeBuf with
        | .buf sender => some sender
        | _ => none
      else none
  | _ => none

/-- What `poll` reports for an entry was asked for, or is an error. -/
def Reportable (events revents : PollEvents) : Prop :=
  revents &&& (events ||| POLLERR ||| POLLHUP ||| POLLNVAL) = revents

instance (events revents : PollEvents) : Decidable (Reportable events revents) :=
  inferInstanceAs (Decidable (_ = _))

/-- The calls are those of the loop, and `poll` keeps to what it is asked for. -/
def Answered (room : Chatroom) (op : RoomOp) : Prop :=
  room.InTurn op ∧
    match op with
    | .poll revents => ∀ position, position < (room.table.userCounter + 1).toNat →
        Reportable (room.events position) (revents position)
    | .round _ => True

instance (room : Chatroom) : ∀ op, Decidable (room.Answered op)
  | .poll revents => inferInstanceAs (Decidable (room.InTurn (.poll revents) ∧
      ∀ position, position < (room.table.userCounter + 1).toNat →
        Reportable (room.events position) (revents position)))
  | .round results => inferInstanceAs (Decidable (room.InTurn (.round results) ∧ True))

/-- The buffer of the client that the round is for is not one that another client awaits, if
the round stores to it; nobody else awaits anything, and there is no NUL, if it broadcasts; and
a new client has a record. -/
def Undisturbed (setup : ChatroomSetup) (room : Chatroom) : RoomOp → Prop
  | .poll _ => True
  | .round results =>
      match room.table.entry room.index with
      | .error _ => True
      | .ok entry =>
          if entry.fd = setup.listenfd ∧ entry.has POLLIN = true then
            room.table.userCounter < (ChatroomServer.userLimit : Int) →
              results.connfd < chatFdLimit
          else if entry.has POLLERR = true then True
          else if entry.has POLLRDHUP = true then
            room.index = room.table.userCounter ∨
              ∀ position ∈ room.others, room.awaits position ≠ some entry.fd
          else if entry.has POLLIN = true then
            ∀ position ∈ room.others, room.awaits position ≠ some entry.fd ∧
              ∀ bytes ∈ results.bytes, 0 ∉ bytes ∧ room.awaits position = none
          else True

instance (setup : ChatroomSetup) (room : Chatroom) : ∀ op, Decidable (room.Undisturbed setup op)
  | .poll _ => inferInstanceAs (Decidable True)
  | .round results => by
      unfold Undisturbed
      dsimp only
      split
      · infer_instance
      · infer_instance

/-- Every client that is sent something is sent exactly what the others have written since it
came or was last sent something. As long as there is a rest, `poll` is asked for the client;
and the round in which the client can be written to, and nothing else, sends the rest. -/
structure Delivers (setup : ChatroomSetup) (room : Chatroom) : Prop where
  exactly : ∀ front fd text rest, room.log = front ++ .handed fd text :: rest →
    Collects fd front text
  asks : ∀ position entry owed, room.Client position entry →
    boxesOf room.log entry.fd = some owed → owed ≠ [] → room.events position &&& POLLOUT ≠ 0
  sends : ∀ (position : Nat) (entry : PollFd) (results : RoundResults), room.index = position →
    room.Client position entry → entry.has POLLOUT = true → entry.has POLLIN = false →
    entry.has POLLRDHUP = false → entry.has POLLERR = false →
    ∃ owed next, boxesOf room.log entry.fd = some owed ∧
      room.step setup (.round results) = .ok next ∧ next.log = room.log ++ [.handed entry.fd owed]

/-! ## The invariant -/

/-- What a client is still to be sent, by its record. -/
def Pending (users : Fd → ClientData) (fd : Fd) (owed : Text) : Prop :=
  match (users fd).writeBuf with
  | .indeterminate => False
  | .null => owed = []
  | .buf sender => sender ≠ fd ∧ 0 ≤ sender ∧ sender < chatFdLimit ∧
      ∃ buf, (users sender).buf = some buf ∧ buf.Holds 0 owed

/-- No client but the one at this position awaits anything from this client. -/
def Unawaited (room : Chatroom) (position : Nat) (fd : Fd) : Prop :=
  ∀ other entry, room.Client other entry → other ≠ position → room.events other &&& POLLOUT ≠ 0 →
    (room.users entry.fd).writeBuf ≠ .buf fd

/-- A client with these events asked for is owed this text. -/
structure Due (users : Fd → ClientData) (entry : PollFd) (events : PollEvents) (owed : Text) :
    Prop where
  range : 0 ≤ entry.fd ∧ entry.fd < chatFdLimit
  asked : entry.has POLLOUT = true → events &&& POLLOUT ≠ 0
  idle : events &&& POLLOUT = 0 → owed = []
  pending : events &&& POLLOUT ≠ 0 → Pending users entry.fd owed

structure Keeps (setup : ChatroomSetup) (room : Chatroom) : Prop where
  table : ∃ clients, ChatroomServer.Table setup room.table clients
  listening : ∀ entry, room.table.fds[0]? = some (some entry) →
    entry.has POLLRDHUP = false ∧ entry.has POLLOUT = false
  asks : room.events 0 = POLLIN ||| POLLERR
  clients : ∀ position entry, room.Client position entry →
    ∃ owed, boxesOf room.log entry.fd = some owed ∧
      Due room.users entry (room.events position) owed
  faithful : Faithful room.log

variable {setup : ChatroomSetup} {room : Chatroom}

/-! ## What is pending -/

theorem mem_others {position : Nat} {entry : PollFd} (client : room.Client position entry)
    (apart : (position : Int) ≠ room.index) : position ∈ room.others := by
  have last := client.last
  unfold others
  rw [List.mem_filter, List.mem_range]
  exact ⟨by omega, decide_eq_true ⟨client.first, apart⟩⟩

section Pending

variable {users users' : Fd → ClientData} {fd : Fd} {owed : Text}

/-- What is pending stays if nobody stores to the pointer and to the buffer behind it. -/
theorem Pending.kept (pending : Pending users fd owed)
    (pointer : (users' fd).writeBuf = (users fd).writeBuf)
    (buffer : ∀ sender, (users fd).writeBuf = .buf sender → (users' sender).buf = (users sender).buf) :
    Pending users' fd owed := by
  unfold Pending at pending ⊢
  rw [pointer]
  cases target : (users fd).writeBuf with
  | indeterminate =>
      rw [target] at pending
      exact pending
  | null =>
      rw [target] at pending
      exact pending
  | buf sender =>
      rw [target] at pending
      obtain ⟨apart, low, high, buf, found, holds⟩ := pending
      exact ⟨apart, low, high, buf, (buffer sender target).trans found, holds⟩

theorem Due.kept {entry : PollFd} {events : PollEvents} (due : Due users entry events owed)
    (pointer : (users' entry.fd).writeBuf = (users entry.fd).writeBuf)
    (buffer : events &&& POLLOUT ≠ 0 → ∀ sender, (users entry.fd).writeBuf = .buf sender →
      (users' sender).buf = (users sender).buf) : Due users' entry events owed where
  range := due.range
  asked := due.asked
  idle := due.idle
  pending := fun asked => (due.pending asked).kept pointer (buffer asked)

/-- A client without a pointer to any buffer is owed nothing. -/
theorem Due.nothing {entry : PollFd} {events : PollEvents} (due : Due users entry events owed)
    (nobody : events &&& POLLOUT ≠ 0 → ∀ sender, (users entry.fd).writeBuf ≠ .buf sender) :
    owed = [] := by
  by_cases asked : events &&& POLLOUT = 0
  · exact due.idle asked
  have pending := due.pending asked
  unfold Pending at pending
  cases target : (users entry.fd).writeBuf with
  | indeterminate =>
      rw [target] at pending
      exact pending.elim
  | null =>
      rw [target] at pending
      exact pending
  | buf sender => exact absurd target (nobody asked sender)

end Pending

theorem Client.awaits_eq {position : Nat} {entry : PollFd} (client : room.Client position entry)
    (asked : room.events position &&& POLLOUT ≠ 0) {sender : Fd}
    (target : (room.users entry.fd).writeBuf = .buf sender) :
    room.awaits position = some sender := by
  unfold awaits
  rw [client.found]
  dsimp only
  rw [if_pos asked, target]

theorem stays_raised (events : PollEvents) (asked : events &&& POLLOUT ≠ 0) :
    (events ||| ~~~POLLOUT ||| POLLIN) &&& POLLOUT ≠ 0 := by
  have first : ~~~POLLOUT &&& POLLOUT = 0#16 := by decide
  have second : POLLIN &&& POLLOUT = 0#16 := by decide
  rwa [BitVec.and_or_distrib_right, BitVec.and_or_distrib_right, first, second, BitVec.or_zero,
    BitVec.or_zero]

/-! ## The branches -/

namespace Keeps

variable {clients : List PollFd} {position : Nat} {entry : PollFd}

theorem range (keeps : Keeps setup room) (client : room.Client position entry) :
    0 ≤ entry.fd ∧ entry.fd < chatFdLimit := by
  obtain ⟨owed, -, due⟩ := keeps.clients position entry client
  exact due.range

theorem ranges (keeps : Keeps setup room)
    (table : ChatroomServer.Table setup room.table clients) {member : PollFd}
    (present : member ∈ clients) : 0 ≤ member.fd ∧ member.fd < chatFdLimit := by
  obtain ⟨place, found⟩ := List.mem_iff_getElem?.mp present
  exact keeps.range ((client_iff table).mpr ⟨place, rfl, found⟩)

theorem sameFds (keeps : Keeps setup room) {table : ChatroomServer}
    (isTable : ∃ clients, ChatroomServer.Table setup table clients)
    (fds : table.fds = room.table.fds) (counter : table.userCounter = room.table.userCounter) :
    Keeps setup { room with table } where
  table := isTable
  listening := by
    rw [fds]
    exact keeps.listening
  asks := keeps.asks
  clients position entry client := by
    refine keeps.clients position entry ⟨client.first, ?_, ?_⟩
    · rw [← counter]
      exact client.last
    · rw [← fds]
      exact client.found
  faithful := keeps.faithful

/-- The room behind an event that the boxes allow: what is left to show is what each client is
owed now. -/
theorem next (keeps : Keeps setup room) {room' : Chatroom} {event : Event Fd UInt8}
    (isTable : ∃ clients, ChatroomServer.Table setup room'.table clients)
    (first : room'.table.fds[0]? = room.table.fds[0]?) (asks : room'.events 0 = room.events 0)
    (logged : room'.log = room.log ++ [event]) (allowed : (boxesOf room.log).Allows event)
    (clients : ∀ position entry, room'.Client position entry →
      ∃ owed, (boxesOf room.log).step event entry.fd = some owed ∧
        Due room'.users entry (room'.events position) owed) : Keeps setup room' where
  table := isTable
  listening := by
    rw [first]
    exact keeps.listening
  asks := asks.trans keeps.asks
  clients position entry client := by
    rw [logged, boxesOf_concat]
    exact clients position entry client
  faithful := by
    rw [logged]
    exact faithful_concat.mpr ⟨keeps.faithful, allowed⟩

theorem acceptClient (keeps : Keeps setup room) {connfd : Fd}
    (unused : 0 ≤ connfd → room.table.descriptors.isOpen connfd = false)
    (hasRecord : room.table.userCounter < (ChatroomServer.userLimit : Int) → connfd < chatFdLimit) :
    ∃ room', room.acceptClient connfd = .ok room' ∧ Keeps setup room' ∧ room'.index = room.index := by
  obtain ⟨clients, table⟩ := keeps.table
  have counter := table.counter
  obtain ⟨table', ⟨isTable, fds, same, done⟩ | ⟨isTable, inRange, fds, more, done⟩⟩ :=
    acceptClient_spec table unused hasRecord
  · exact ⟨_, done, keeps.sameFds ⟨_, isTable⟩ fds same, rfl⟩
  have closed := unused inRange.1
  have users : (room.setUser connfd (room.users connfd)).users = room.users := by
    funext fd
    by_cases self : fd = connfd
    · rw [self, setUser_self]
    · exact setUser_other self
  let added : Chatroom := { room.setUser connfd (room.users connfd) with table := table' }
  let asking := added.storeEvents (clients.length + 1) (POLLIN ||| POLLRDHUP ||| POLLERR)
  have elsewhere : ∀ position, position ≠ clients.length + 1 →
      asking.events position = room.events position := fun position apart =>
    storeEvents_other apart
  refine ⟨asking.record (.joined connfd), done, ?_, rfl⟩
  refine keeps.next ⟨_, isTable⟩ ?_ (elsewhere 0 (by omega)) rfl trivial ?_
  · have same : table'.fds[0]? = room.table.fds[0]? := by
      rw [fds, List.getElem?_set_ne (by omega)]
    exact same
  intro position entry client
  have last : (position : Int) ≤ table'.userCounter := client.last
  have found : table'.fds[position]? = some (some entry) := client.found
  have due : ∀ owed, Due room.users entry (asking.events position) owed →
      Due (asking.record (.joined connfd)).users entry (asking.events position) owed := by
    intro owed due
    have same : (asking.record (.joined connfd)).users = room.users := users
    rwa [same]
  rw [fds] at found
  rw [Boxes.step_joined]
  by_cases new : position = clients.length + 1
  · subst new
    have inside : clients.length + 1 < room.table.fds.length := by
      rw [table.size]
      have limit := isTable.counter_le
      have counter' := isTable.counter
      omega
    rw [List.getElem?_set_self inside] at found
    obtain rfl : entry = ⟨connfd, 0⟩ := (Option.some.inj (Option.some.inj found)).symm
    have quiet : (PollFd.mk connfd 0).has POLLOUT = false := by simp [PollFd.has]
    have events : asking.events (clients.length + 1) &&& POLLOUT = 0 :=
      (congrArg (· &&& POLLOUT) storeEvents_self).trans (by decide)
    refine ⟨[], if_pos rfl, due [] ⟨inRange, fun ready => ?_, fun _ => rfl, fun asked =>
      absurd events asked⟩⟩
    rw [quiet] at ready
    cases ready
  · rw [List.getElem?_set_ne (Ne.symm new)] at found
    have old : room.Client position entry := ⟨client.first, by omega, found⟩
    obtain ⟨owed, box, owes⟩ := keeps.clients position entry old
    have apart : entry.fd ≠ connfd := fun same =>
      (table.of_closed closed).1 (same ▸ List.mem_map_of_mem (old.mem table))
    exact ⟨owed, (if_neg apart).trans box, due owed (elsewhere position new ▸ owes)⟩

theorem removeClient (keeps : Keeps setup room) (client : room.Client position entry)
    (here : room.index = position)
    (safe : room.index = room.table.userCounter ∨ room.Unawaited position entry.fd) :
    ∃ room', room.removeClient entry.fd = .ok room' ∧ Keeps setup room' ∧
      room'.index = room.index - 1 := by
  obtain ⟨clients, table⟩ := keeps.table
  have counter := table.counter
  have first := client.first
  have inside := client.last
  obtain ⟨kept, pending, rfl, rfl⟩ := client.split table
  obtain ⟨final, table', pending', atEnd, isTable, -, fds, fewer, done⟩ :=
    removeClient_spec table here fun _ => keeps.ranges table
  let copied := room.setUser entry.fd (room.users final.fd)
  let moved := copied.storeEvents (kept.length + 1)
    (room.events (kept ++ entry :: pending).length)
  let gone : Chatroom := { moved with table := table', index := (kept.length : Nat) }.record
    (.left entry.fd)
  have elsewhere : ∀ other, other ≠ kept.length + 1 → gone.events other = room.events other := by
    intro other apart
    have same : moved.events other = copied.events other := storeEvents_other apart
    exact same
  -- an entry is where it was, or it was the last one and is in the gap
  have before : ∀ other entry', gone.Client other entry' →
      ∃ old, old ≠ kept.length + 1 ∧ room.Client old entry' ∧
        gone.events other = room.events old := by
    rintro other entry' ⟨first', last, there⟩
    have last : (other : Int) ≤ table'.userCounter := last
    have there : table'.fds[other]? = some (some entry') := there
    rw [fds] at there
    by_cases gap : other = kept.length + 1
    · subst gap
      rw [List.getElem?_set_self (by rw [table.size]; have := table.counter_le; omega)] at there
      obtain rfl : final = entry' := Option.some.inj (Option.some.inj there)
      exact ⟨_, by omega, atEnd, storeEvents_self⟩
    · rw [List.getElem?_set_ne (Ne.symm gap)] at there
      exact ⟨other, gap, ⟨first', by omega, there⟩, elsewhere other gap⟩
  refine ⟨gone, done, keeps.next ⟨_, isTable⟩ ?_ (elsewhere 0 (by omega)) rfl trivial ?_, ?_⟩
  · have same : table'.fds[0]? = room.table.fds[0]? := by
      rw [fds, List.getElem?_set_ne (by omega)]
    exact same
  · intro other entry' there
    obtain ⟨old, apart, oldClient, events⟩ := before other entry' there
    obtain ⟨owed, box, due⟩ := keeps.clients old entry' oldClient
    have different := oldClient.ne_fd client table apart
    rw [Boxes.step_left, if_neg different, events]
    refine ⟨owed, box, due.kept (congrArg ClientData.writeBuf (setUser_other different))
      fun asked sender target => congrArg ClientData.buf ?_⟩
    have users : ∀ fd, gone.users fd = copied.users fd := fun _ => rfl
    rw [users]
    by_cases own : sender = entry.fd
    · subst own
      rcases safe with isLast | nobody
      · obtain rfl : entry = final := by
          have last : kept.length + 1 = (kept ++ entry :: pending).length := by omega
          exact client.unique (last ▸ atEnd)
        exact setUser_self
      · exact absurd target (nobody old entry' oldClient apart asked)
    · exact setUser_other own
  · have back : gone.index = (kept.length : Nat) := rfl
    omega

theorem storeBuf (keeps : Keeps setup room) (client : room.Client position entry)
    (buf : Option (Buffer chatBufferSize))
    (safe : room.Unawaited position entry.fd) :
    Keeps setup (room.setUser entry.fd { room.users entry.fd with buf }) where
  table := keeps.table
  listening := keeps.listening
  asks := keeps.asks
  clients other entry' there := by
    have old : room.Client other entry' := { there with }
    obtain ⟨owed, box, due⟩ := keeps.clients other entry' old
    refine ⟨owed, box, due.kept ?_ fun asked sender target => ?_⟩
    · by_cases self : entry'.fd = entry.fd
      · rw [self, setUser_self]
      · rw [setUser_other self]
    · refine congrArg ClientData.buf (setUser_other ?_)
      rintro rfl
      obtain ⟨clients, table⟩ := keeps.table
      by_cases same : other = position
      · subst same
        obtain rfl := old.unique client
        have pending := due.pending asked
        unfold Pending at pending
        rw [target] at pending
        exact pending.1 rfl
      · exact safe other entry' old same asked target
  faithful := keeps.faithful

/-- Nobody but the sender is owed anything, and the others are told of what it has written. -/
theorem posts (keeps : Keeps setup room) (client : room.Client position entry) {bytes : Text}
    (fits : bytes.length < chatBufferSize)
    (held : (room.users entry.fd).buf = some ((Buffer.zero chatBufferSize).copyIn 0 bytes))
    (settled : ∀ other entry', room.Client other entry' → other ≠ position → 0 ∉ bytes ∧
      (room.events other &&& POLLOUT ≠ 0 → ∀ sender, (room.users entry'.fd).writeBuf ≠ .buf sender)) :
    ∃ room', (room.record (.posted entry.fd bytes)).broadcast entry.fd 1
        room.table.userCounter.toNat = .ok room' ∧ Keeps setup room' ∧ room'.index = room.index := by
  obtain ⟨clients, table⟩ := keeps.table
  have counter := table.counter
  have recordTable : ChatroomServer.Table setup
    (room.record (.posted entry.fd bytes)).table clients := table
  have whole : ((1 : Nat) : Int) + (room.table.userCounter.toNat : Nat) =
      (room.record (.posted entry.fd bytes)).table.userCounter + 1 := by
    have same : (room.record (.posted entry.fd bytes)).table = room.table := rfl
    rw [same]
    omega
  obtain ⟨room', done, cast⟩ := broadcast_spec recordTable
    (fun other entry' there => keeps.range { there with }) entry.fd (Nat.le_refl 1) whole
  have tables : room'.table = room.table := cast.table
  refine ⟨room', done, keeps.next (tables ▸ ⟨clients, table⟩) (by rw [tables])
    (cast.before 0 Nat.zero_lt_one) cast.log trivial ?_, cast.index⟩
  intro other entry' there
  have old : room.Client other entry' := ⟨there.first, tables ▸ there.last, tables ▸ there.found⟩
  obtain ⟨owed, box, due⟩ := keeps.clients other entry' old
  have recorded : (room.record (.posted entry.fd bytes)).Client other entry' := { old with }
  rw [Boxes.step_posted]
  by_cases same : other = position
  · subst same
    obtain rfl := old.unique client
    rw [if_pos rfl]
    refine ⟨owed, box, ?_⟩
    rw [cast.own other entry' recorded rfl]
    exact due.kept cast.sender fun _ sender _ => cast.buffers sender
  · have apart := old.ne_fd client table same
    obtain ⟨clean, nobody⟩ := settled other entry' old same
    obtain rfl := due.nothing nobody
    obtain ⟨pointer, asked⟩ := cast.told other entry' recorded old.first apart
    refine ⟨bytes, ?_, due.range, fun _ => asked, fun unasked => absurd unasked asked, fun _ => ?_⟩
    · rw [if_neg apart, box]
      rfl
    · unfold Pending
      rw [pointer]
      have sender := keeps.range client
      exact ⟨Ne.symm apart, sender.1, sender.2, _, (cast.buffers entry.fd).trans held,
        Buffer.holds_copyIn_zero clean fits⟩

theorem receive (keeps : Keeps setup room) (client : room.Client position entry)
    (here : room.index = position) (results : RoundResults)
    (safe : room.Unawaited position entry.fd)
    (settled : ∀ bytes, results.bytes = some bytes → ∀ other entry', room.Client other entry' →
      other ≠ position → 0 ∉ bytes ∧
        (room.events other &&& POLLOUT ≠ 0 → ∀ sender, (room.users entry'.fd).writeBuf ≠ .buf sender)) :
    ∃ room', room.receive entry.fd results = .ok room' ∧ Keeps setup room' ∧
      (room'.index = room.index ∨ room'.index = room.index - 1) := by
  obtain ⟨clients, table⟩ := keeps.table
  have range := keeps.range client
  have pointers : ∀ buf other entry', room.Client other entry' → other ≠ position →
      (room.setUser entry.fd { room.users entry.fd with buf }).users entry'.fd =
        room.users entry'.fd :=
    fun buf other entry' there apart => setUser_other (there.ne_fd client table apart)
  cases received : results.bytes with
  | none =>
      have emptied := keeps.storeBuf client (some (Buffer.zero chatBufferSize)) safe
      rw [receive_none range received]
      by_cases again : results.eagain = true
      · rw [if_pos again]
        exact ⟨_, rfl, emptied, .inl rfl⟩
      · rw [if_neg again]
        obtain ⟨room', done, keeps', index⟩ :=
          emptied.removeClient { client with } here (.inr fun other entry' there apart asked => by
            have old : room.Client other entry' := { there with }
            rw [pointers _ other entry' old apart]
            exact safe other entry' old apart asked)
        exact ⟨room', done, keeps', .inr index⟩
  | some bytes =>
      have filled := keeps.storeBuf client (some ((Buffer.zero chatBufferSize).copyIn 0 bytes)) safe
      obtain ⟨room', done, keeps', index⟩ := posts filled { client with } (length_bytes_lt received)
        (congrArg ClientData.buf setUser_self) fun other entry' there apart => by
          have old : room.Client other entry' := { there with }
          rw [pointers _ other entry' old apart]
          exact settled bytes received other entry' old apart
      rw [receive_some range received]
      exact ⟨room', done, keeps', .inl index⟩

/-- A client that is sent what it is owed has nothing to wait for. -/
theorem handed (keeps : Keeps setup room) (client : room.Client position entry) {text : Text}
    (box : boxesOf room.log entry.fd = some text) {room' : Chatroom}
    (sameTable : room'.table = room.table) (logged : room'.log = room.log ++ [.handed entry.fd text])
    (buffers : ∀ fd, (room'.users fd).buf = (room.users fd).buf)
    (pointers : ∀ fd, fd ≠ entry.fd → (room'.users fd).writeBuf = (room.users fd).writeBuf)
    (cleared : (room'.users entry.fd).writeBuf = .null)
    (events : ∀ other, other ≠ position → room'.events other = room.events other)
    (asked : room'.events position &&& POLLOUT ≠ 0) : Keeps setup room' := by
  obtain ⟨clients, table⟩ := keeps.table
  have first := client.first
  refine keeps.next (sameTable ▸ ⟨clients, table⟩) (by rw [sameTable]) (events 0 (by omega)) logged
    box ?_
  intro other entry' there
  have old : room.Client other entry' :=
    ⟨there.first, sameTable ▸ there.last, sameTable ▸ there.found⟩
  obtain ⟨owed, box', due⟩ := keeps.clients other entry' old
  rw [Boxes.step_handed]
  by_cases same : other = position
  · subst same
    obtain rfl := old.unique client
    rw [if_pos rfl, box]
    refine ⟨[], rfl, due.range, fun _ => asked, fun _ => rfl, fun _ => ?_⟩
    unfold Pending
    rw [cleared]
  · have apart := old.ne_fd client table same
    rw [if_neg apart, events other same]
    exact ⟨owed, box', due.kept (pointers _ apart) fun _ sender _ => buffers sender⟩

theorem write (keeps : Keeps setup room) (client : room.Client position entry)
    (here : room.index = position) (ready : entry.has POLLOUT = true) :
    ∃ room', room.write entry.fd = .ok room' ∧ Keeps setup room' ∧ room'.index = room.index ∧
      ∀ text, boxesOf room.log entry.fd = some text →
        room'.log = room.log ++ [.handed entry.fd text] := by
  obtain ⟨owed, box, due⟩ := keeps.clients position entry client
  have asked := due.asked ready
  have pending := due.pending asked
  unfold Pending at pending
  cases target : (room.users entry.fd).writeBuf with
  | indeterminate =>
      rw [target] at pending
      exact pending.elim
  | null =>
      rw [target] at pending
      subst pending
      refine ⟨_, write_null due.range target, keeps.handed client box rfl rfl (fun _ => rfl)
        (fun _ _ => rfl) target (fun _ _ => rfl) asked, rfl, fun text same => ?_⟩
      obtain rfl := Option.some.inj (box.symm.trans same)
      rfl
  | buf sender =>
      rw [target] at pending
      obtain ⟨-, low, high, buf, found, holds⟩ := pending
      have done := write_buf due.range target ⟨low, high⟩ found holds
      rw [here, Int.toNat_natCast] at done
      let sent : Chatroom := (room.record (.handed entry.fd owed)).setUser entry.fd
        { room.users entry.fd with writeBuf := .null }
      have self : sent.users entry.fd = { room.users entry.fd with writeBuf := .null } := setUser_self
      refine ⟨_, done, keeps.handed client box rfl rfl ?_ ?_ ?_ ?_ ?_, rfl, ?_⟩
      · intro fd
        rw [storeEvents_users]
        by_cases same : fd = entry.fd
        · rw [same, self]
        · exact congrArg ClientData.buf (setUser_other same)
      · intro fd apart
        exact congrArg ClientData.writeBuf (setUser_other apart)
      · rw [storeEvents_users, self]
      · exact fun other apart => storeEvents_other apart
      · rw [storeEvents_self]
        exact stays_raised _ asked
      · intro text same
        obtain rfl := Option.some.inj (box.symm.trans same)
        rfl

end Keeps

/-! ## The rounds -/

theorem entry_first {table : ChatroomServer} {listening : PollFd}
    (found : table.entry 0 = .ok listening) : table.fds[0]? = some (some listening) := by
  unfold ChatroomServer.entry at found
  split at found
  · split at found
    · next there =>
        cases found
        exact there
    · cases found
  · cases found

/-- Nobody awaits anything from this client, in the terms of the records. -/
theorem not_awaited {position : Nat} {entry : PollFd} (here : room.index = position)
    (nobody : ∀ other ∈ room.others, room.awaits other ≠ some entry.fd) :
    room.Unawaited position entry.fd := by
  intro other entry' client apart asked target
  exact nobody other (mem_others client (by omega)) (client.awaits_eq asked target)

theorem Keeps.dispatch_listening (keeps : Keeps setup room) {results : RoundResults}
    (here : room.index = 0) (inTurn : room.InTurn (.round results))
    (undisturbed : room.Undisturbed setup (.round results)) :
    ∃ room', room.dispatch setup results = .ok room' ∧ Keeps setup room' ∧
      room'.index = room.index := by
  obtain ⟨clients, table⟩ := keeps.table
  obtain ⟨listening, found, isListening⟩ := table.listening_eq
  obtain ⟨notHungUp, notReady⟩ := keeps.listening listening (entry_first found)
  unfold Undisturbed at undisturbed
  unfold dispatch
  rw [← here] at found
  simp only [found, isListening, true_and] at undisturbed
  simp only [found, ok_bind, isListening, true_and, notHungUp, notReady, pure_eq_ok]
  by_cases readable : listening.has POLLIN = true
  · rw [if_pos readable] at undisturbed ⊢
    exact keeps.acceptClient (inTurn.2 here) undisturbed
  · simp only [if_neg readable, if_neg Bool.false_ne_true, ite_self]
    exact ⟨_, rfl, keeps, rfl⟩

/-- What the round for a client starts with. -/
theorem Keeps.enters (keeps : Keeps setup room) {position : Nat} {entry : PollFd}
    (here : room.index = position) (client : room.Client position entry) :
    entry.fd ≠ setup.listenfd ∧ room.table.entry room.index = .ok entry := by
  obtain ⟨clients, table⟩ := keeps.table
  refine ⟨table.ne_listenfd (client.mem table), ?_⟩
  rw [here]
  exact client.entry_eq table

theorem Keeps.dispatch_client (keeps : Keeps setup room) {results : RoundResults} {position : Nat}
    {entry : PollFd} (here : room.index = position) (client : room.Client position entry)
    (undisturbed : room.Undisturbed setup (.round results)) :
    ∃ room', room.dispatch setup results = .ok room' ∧ Keeps setup room' ∧
      (room'.index = room.index ∨ room'.index = room.index - 1) := by
  obtain ⟨notListening, found⟩ := keeps.enters here client
  unfold Undisturbed at undisturbed
  unfold dispatch
  simp only [found, notListening, false_and, if_false] at undisturbed
  simp only [found, ok_bind, notListening, false_and, if_false, pure_eq_ok]
  by_cases failed : entry.has POLLERR = true
  · rw [if_pos failed]
    exact ⟨_, rfl, keeps, .inl rfl⟩
  rw [if_neg failed] at undisturbed ⊢
  by_cases hungUp : entry.has POLLRDHUP = true
  · rw [if_pos hungUp] at undisturbed ⊢
    obtain ⟨room', done, keeps', index⟩ := keeps.removeClient client here (by
      rcases undisturbed with last | nobody
      · exact .inl last
      · exact .inr (not_awaited here nobody))
    exact ⟨room', done, keeps', .inr index⟩
  rw [if_neg hungUp] at undisturbed ⊢
  by_cases readable : entry.has POLLIN = true
  · rw [if_pos readable] at undisturbed ⊢
    refine keeps.receive client here results
      (not_awaited here fun other found => (undisturbed other found).1) ?_
    intro bytes received other entry' there apart
    obtain ⟨clean, nothing⟩ := (undisturbed other (mem_others there (by omega))).2 bytes received
    refine ⟨clean, fun asked sender target => ?_⟩
    rw [there.awaits_eq asked target] at nothing
    cases nothing
  rw [if_neg readable]
  by_cases writable : entry.has POLLOUT = true
  · rw [if_pos writable]
    obtain ⟨room', done, keeps', index, -⟩ := keeps.write client here writable
    exact ⟨room', done, keeps', .inl index⟩
  · rw [if_neg writable]
    exact ⟨_, rfl, keeps, .inl rfl⟩

/-- A client that can be written to, and nothing else, is sent what it is owed. -/
theorem Keeps.sends (keeps : Keeps setup room) {position : Nat} {entry : PollFd}
    (results : RoundResults) (here : room.index = position) (client : room.Client position entry)
    (writable : entry.has POLLOUT = true) (silent : entry.has POLLIN = false)
    (present : entry.has POLLRDHUP = false) (sound : entry.has POLLERR = false) :
    ∃ owed next, boxesOf room.log entry.fd = some owed ∧
      room.step setup (.round results) = .ok next ∧
        next.log = room.log ++ [.handed entry.fd owed] := by
  obtain ⟨notListening, found⟩ := keeps.enters here client
  obtain ⟨owed, box, -⟩ := keeps.clients position entry client
  obtain ⟨room', done, -, -, logged⟩ := keeps.write client here writable
  refine ⟨owed, { room' with index := room'.index + 1 }, box, ?_, logged owed box⟩
  unfold Chatroom.step dispatch
  simp only [found, ok_bind, notListening, false_and, if_false, sound, present, silent, writable,
    if_neg Bool.false_ne_true, if_true, done, pure_eq_ok]

theorem Keeps.delivers (keeps : Keeps setup room) : room.Delivers setup where
  exactly front fd text rest split := by
    have faithful := keeps.faithful
    rw [split] at faithful
    exact faithful.handed
  asks position entry owed client box owes unasked := by
    obtain ⟨owed', box', due⟩ := keeps.clients position entry client
    obtain rfl : owed = owed' := Option.some.inj (box.symm.trans box')
    exact owes (due.idle unasked)
  sends _ _ results here client writable silent present sound :=
    keeps.sends results here client writable silent present sound

/-- Readiness to be written to is reported only if it was asked for. -/
theorem Reportable.asked {events revents : PollEvents} (reportable : Reportable events revents)
    (reported : revents &&& POLLOUT ≠ 0) : events &&& POLLOUT ≠ 0 := by
  have errors : POLLERR &&& POLLOUT = 0 := by decide
  have hangUps : POLLHUP &&& POLLOUT = 0 := by decide
  have invalid : POLLNVAL &&& POLLOUT = 0 := by decide
  intro unasked
  unfold Reportable at reportable
  rw [← reportable, BitVec.and_assoc, BitVec.and_or_distrib_right, BitVec.and_or_distrib_right,
    BitVec.and_or_distrib_right, unasked, errors, hangUps, invalid] at reported
  exact reported BitVec.and_zero

/-- For the listening socket nothing but connections and errors is reported. -/
theorem Reportable.listening {revents : PollEvents}
    (reportable : Reportable (POLLIN ||| POLLERR) revents) :
    revents &&& POLLRDHUP = 0 ∧ revents &&& POLLOUT = 0 := by
  have hungUp : (POLLIN ||| POLLERR ||| POLLERR ||| POLLHUP ||| POLLNVAL) &&& POLLRDHUP = 0 := by
    decide
  have writable : (POLLIN ||| POLLERR ||| POLLERR ||| POLLHUP ||| POLLNVAL) &&& POLLOUT = 0 := by
    decide
  unfold Reportable at reportable
  rw [← reportable, BitVec.and_assoc, BitVec.and_assoc, hungUp, writable]
  exact ⟨BitVec.and_zero, BitVec.and_zero⟩

theorem Keeps.polled (keeps : Keeps setup room) {revents : Nat → PollEvents}
    (answered : room.Answered (.poll revents)) : Keeps setup (room.polled revents) := by
  obtain ⟨clients, table⟩ := keeps.table
  have counter := table.counter
  obtain ⟨clients', isTable, -⟩ := table.polled_spec revents
  constructor
  · exact ⟨clients', isTable⟩
  · intro listening found
    have here : (room.table.polled revents).fds[0]? = some (some listening) := found
    rw [polled_fds _ _ (by omega)] at here
    obtain ⟨old, -, reports⟩ := Option.map_eq_some_iff.mp here
    obtain ⟨entry, -, rfl⟩ := Option.map_eq_some_iff.mp reports
    have reportable := answered.2 0 (by omega)
    rw [keeps.asks] at reportable
    obtain ⟨hungUp, writable⟩ := reportable.listening
    simp [PollFd.has, hungUp, writable]
  · exact keeps.asks
  · rintro position entry ⟨first, last, found⟩
    have inside : (position : Int) ≤ room.table.userCounter := last
    have here : (room.table.polled revents).fds[position]? = some (some entry) := found
    rw [polled_fds _ _ inside] at here
    obtain ⟨slot, there, reports⟩ := Option.map_eq_some_iff.mp here
    obtain ⟨old, rfl, rfl⟩ := Option.map_eq_some_iff.mp reports
    obtain ⟨owed, box, due⟩ := keeps.clients position old ⟨first, inside, there⟩
    refine ⟨owed, box, due.range, fun reported => ?_, due.idle, due.pending⟩
    exact (answered.2 position (by omega)).asked (of_decide_eq_true reported)
  · exact keeps.faithful

theorem Keeps.moved (keeps : Keeps setup room) (index : Int) : Keeps setup { room with index } where
  table := keeps.table
  listening := keeps.listening
  asks := keeps.asks
  clients position entry client := keeps.clients position entry { client with }
  faithful := keeps.faithful

theorem Keeps.step (keeps : Keeps setup room) (index : 0 ≤ room.index) {op : RoomOp}
    (answered : room.Answered op) (undisturbed : room.Undisturbed setup op) :
    ∃ room', room.step setup op = .ok room' ∧ Keeps setup room' ∧ 0 ≤ room'.index := by
  cases op with
  | poll revents => exact ⟨_, rfl, keeps.polled answered, Int.le_refl 0⟩
  | round results =>
      obtain ⟨clients, table⟩ := keeps.table
      unfold Chatroom.step
      rcases round_cases table index answered.1.1 with listening | ⟨position, entry, here, client⟩
      · obtain ⟨room', done, keeps', same⟩ := keeps.dispatch_listening listening answered.1 undisturbed
        simp only [done, ok_bind, pure_eq_ok]
        exact ⟨_, rfl, keeps'.moved _, by
          dsimp only
          omega⟩
      · have first := client.first
        obtain ⟨room', done, keeps', moved⟩ := keeps.dispatch_client here client undisturbed
        simp only [done, ok_bind, pure_eq_ok]
        exact ⟨_, rfl, keeps'.moved _, by
          dsimp only
          omega⟩

theorem keeps_start (setup : ChatroomSetup) : Keeps setup (start setup) where
  table := ⟨[], ChatroomServer.table_start setup⟩
  listening entry found := by
    obtain rfl : entry = ⟨setup.listenfd, 0⟩ := (Option.some.inj (Option.some.inj found)).symm
    simp [PollFd.has]
  asks := rfl
  clients position entry client := by
    have first := client.first
    have last : (position : Int) ≤ 0 := client.last
    omega
  faithful := trivial

end Chatroom

/-- In a run in which nobody is disturbed every client is sent what it should. -/
theorem chatroomServer_delivers (setup : ChatroomSetup) (ops : List RoomOp)
    (answered : StepsMeet Chatroom.Answered (Chatroom.step setup) (Chatroom.start setup) ops)
    (undisturbed : StepsMeet (Chatroom.Undisturbed setup) (Chatroom.step setup)
      (Chatroom.start setup) ops) :
    (∃ room, runOps (Chatroom.step setup) (Chatroom.start setup) ops = .ok room) ∧
      ReachesOnly (Chatroom.Delivers setup) (Chatroom.step setup) (Chatroom.start setup) ops := by
  have run := answered.and undisturbed
  have start : Chatroom.Keeps setup (Chatroom.start setup) ∧ 0 ≤ (Chatroom.start setup).index :=
    ⟨Chatroom.keeps_start setup, Int.zero_le_ofNat 1⟩
  have keeps : ∀ (room : Chatroom) (op : RoomOp), Chatroom.Keeps setup room ∧ 0 ≤ room.index →
      room.Answered op ∧ room.Undisturbed setup op →
      ∃ next, room.step setup op = .ok next ∧ Chatroom.Keeps setup next ∧ 0 ≤ next.index :=
    fun room op invariant met => invariant.1.step invariant.2 met.1 met.2
  constructor
  · obtain ⟨room, done, -⟩ := runOps_preserves
      (fun room => Chatroom.Keeps setup room ∧ 0 ≤ room.index) keeps start run
    exact ⟨room, done⟩
  · have reached : ReachesOnly (fun room => Chatroom.Keeps setup room ∧ 0 ≤ room.index)
        (Chatroom.step setup) (Chatroom.start setup) ops := by
      refine run.reachesOnly (fun room op invariant met next done => ?_) start
      obtain ⟨next', done', kept⟩ := keeps room op invariant met
      obtain rfl := Except.ok.inj (done.symm.trans done')
      exact kept
    exact reached.mono fun room invariant => invariant.1.delivers

/-- A call of `poll` that reports these events for one entry, and the rounds behind it. -/
def pollPass (index : Nat) (ready : PollEvents) (results : List RoundResults) : List RoomOp :=
  .poll (fun other => if other = index then ready else 0) :: results.map .round

def quietRound : RoundResults := ⟨-1, none, false⟩

/-- The listening socket accepts the client 4, then the client 5. -/
def twoJoin : List RoomOp :=
  pollPass 0 POLLIN [⟨4, none, false⟩, quietRound] ++
    pollPass 0 POLLIN [⟨5, none, false⟩, quietRound, quietRound]

/-- The client 4 writes, and is heard in the round for the first client. -/
def firstWrites (text : String) : List RoomOp :=
  pollPass 1 POLLIN [quietRound, ⟨-1, some (ascii text), false⟩, quietRound]

def secondReads : List RoomOp := pollPass 2 POLLOUT [quietRound, quietRound, quietRound]

def patientRun : List RoomOp := twoJoin ++ firstWrites "a" ++ secondReads

def hastyRun : List RoomOp := twoJoin ++ firstWrites "a" ++ firstWrites "b" ++ secondReads

theorem chatroomServer_delivers_patientRun :
    (∃ room, runOps (Chatroom.step sampleChatroom) (Chatroom.start sampleChatroom) patientRun =
        .ok room) ∧
      ReachesOnly (Chatroom.Delivers sampleChatroom) (Chatroom.step sampleChatroom)
        (Chatroom.start sampleChatroom) patientRun :=
  chatroomServer_delivers sampleChatroom patientRun (by decide +kernel) (by decide +kernel)

/-- The second message of client 4 takes the place of the first one in its buffer. -/
theorem chatroomServer_overwrites :
    StepsMeet Chatroom.Answered (Chatroom.step sampleChatroom) (Chatroom.start sampleChatroom)
        hastyRun ∧
      ∃ room, runOps (Chatroom.step sampleChatroom) (Chatroom.start sampleChatroom) hastyRun =
          .ok room ∧ ¬ room.Delivers sampleChatroom := by
  have log : (runOps (Chatroom.step sampleChatroom) (Chatroom.start sampleChatroom) hastyRun).map
      Chatroom.log = .ok ([.joined 4, .joined 5, .posted 4 (ascii "a"), .posted 4 (ascii "b")] ++
        .handed 5 (ascii "b") :: []) := by
    decide +kernel
  refine ⟨by decide +kernel, ?_⟩
  cases run : runOps (Chatroom.step sampleChatroom) (Chatroom.start sampleChatroom) hastyRun with
  | error fault =>
      rw [run] at log
      cases log
  | ok room =>
      rw [run] at log
      refine ⟨room, rfl, fun delivers => ?_⟩
      have sent := delivers.exactly _ _ _ _ (Except.ok.inj log)
      have owed : Collects (5 : Fd) [.joined 4, .joined 5, .posted 4 (ascii "a"),
          .posted 4 (ascii "b")] (ascii "ab") :=
        box_collects (by decide +kernel)
      have same := sent.unique owed
      exact absurd same (by decide +kernel)

end HPLinuxServer.Execution
