import HPLinuxServer.Execution.ChatroomRounds
import HPLinuxServer.Refinement.Runs

/-!
# Chat room server: passes over the poll table

A pass is the loop between two calls of `poll`. The table, the number of the clients and the
index change under it. As long as the rounds stay inside the records, every entry that was
reported has one round all the same.
-/

set_option autoImplicit false

namespace HPLinuxServer.Execution

open Memory Kernel Refinement Messaging

namespace Chatroom

/-- A round of the loop: its entry, what its calls return and what happens in it. -/
structure Visit where
  entry : PollFd
  results : RoundResults
  events : List (Event Fd UInt8)
  deriving DecidableEq, Repr

/-- The rounds from this one on, up to a fault. -/
def visits (setup : ChatroomSetup) (room : Chatroom) : List RoundResults → List Visit
  | [] => []
  | results :: rounds =>
      match room.table.entry room.index, room.step setup (.round results) with
      | .ok entry, .ok next =>
          ⟨entry, results, next.log.drop room.log.length⟩ :: next.visits setup rounds
      | _, _ => []

/-- What happens in the round is what the report on its entry calls for. -/
def Visit.Served (setup : ChatroomSetup) (visit : Visit) : Prop :=
  let entry := visit.entry
  if entry.fd = setup.listenfd ∧ entry.has POLLIN = true then
    visit.events = [] ∨ visit.events = [.joined visit.results.connfd]
  else if entry.has POLLERR = true then visit.events = []
  else if entry.has POLLRDHUP = true then visit.events = [.left entry.fd]
  else if entry.has POLLIN = true then
    match visit.results.bytes with
    | none => visit.events = if visit.results.eagain then [] else [.left entry.fd]
    | some bytes => visit.events = [.posted entry.fd bytes]
  else if entry.has POLLOUT = true then ∃ text, visit.events = [.handed entry.fd text]
  else visit.events = []

/-- There is nothing behind the pointer, or something that was stored. -/
def Written (room : Chatroom) : WriteBuf → Prop
  | .indeterminate => False
  | .null => True
  | .buf sender => (room.users sender).buf.isSome = true

instance (room : Chatroom) : ∀ writeBuf, Decidable (room.Written writeBuf)
  | .indeterminate => inferInstanceAs (Decidable False)
  | .null => inferInstanceAs (Decidable True)
  | .buf sender => inferInstanceAs (Decidable ((room.users sender).buf.isSome = true))

/-- The round of this entry stores to records only and reads what was stored, and the listening
socket is not taken for a client. -/
def Contains (setup : ChatroomSetup) (room : Chatroom) (results : RoundResults)
    (entry : PollFd) : Prop :=
  if entry.fd = setup.listenfd ∧ entry.has POLLIN = true then
    room.table.userCounter < (ChatroomServer.userLimit : Int) → results.connfd < chatFdLimit
  else if entry.has POLLERR = true then True
  else if entry.has POLLRDHUP = true then entry.fd ≠ setup.listenfd
  else if entry.has POLLIN = true then True
  else if entry.has POLLOUT = true then
    entry.fd ≠ setup.listenfd ∧ room.Written (room.users entry.fd).writeBuf
  else True

instance (setup : ChatroomSetup) (room : Chatroom) (results : RoundResults) (entry : PollFd) :
    Decidable (room.Contains setup results entry) := by
  unfold Contains
  infer_instance

def Contained (setup : ChatroomSetup) (room : Chatroom) : RoomOp → Prop
  | .poll _ => True
  | .round results =>
      ∀ entry ∈ (room.table.entry room.index).toOption, room.Contains setup results entry

instance (setup : ChatroomSetup) (room : Chatroom) : ∀ op, Decidable (room.Contained setup op)
  | .poll _ => inferInstanceAs (Decidable True)
  | .round _ =>
      inferInstanceAs (Decidable (∀ entry ∈ (room.table.entry room.index).toOption, _))

theorem Contained.round {setup : ChatroomSetup} {room : Chatroom} {results : RoundResults}
    {entry : PollFd} (contained : room.Contained setup (.round results))
    (found : room.table.entry room.index = .ok entry) : room.Contains setup results entry :=
  contained entry (congrArg Except.toOption found)

/-! ## The invariant -/

/-- The pointer of a record is to a record, and its buffer has an end. -/
structure ClientData.Sound (client : ClientData) : Prop where
  pointer : ∀ sender, client.writeBuf = .buf sender → 0 ≤ sender ∧ sender < chatFdLimit
  ends : ∀ buf, client.buf = some buf → ∃ text, buf.Holds 0 text

structure Sound (setup : ChatroomSetup) (room : Chatroom) (clients : List PollFd) : Prop where
  table : ChatroomServer.Table setup room.table clients
  range : ∀ client ∈ clients, 0 ≤ client.fd ∧ client.fd < chatFdLimit
  records : ∀ fd, (room.users fd).Sound

/-- The round of a client is over, and these are still to have theirs. -/
def Advances (setup : ChatroomSetup) (room : Chatroom) (pending : List PollFd)
    (events : List (Event Fd UInt8)) (room' : Chatroom) : Prop :=
  ∃ kept pending', Sound setup room' (kept ++ pending') ∧ pending'.Perm pending ∧
    room'.index = (kept.length : Nat) ∧ room'.log = room.log ++ events

theorem sound_start (setup : ChatroomSetup) : Sound setup (start setup) [] where
  table := ChatroomServer.table_start setup
  range _ member := absurd member List.not_mem_nil
  records _ := ⟨fun _ target => (by cases target), fun _ held => (by cases held)⟩

namespace Sound

variable {setup : ChatroomSetup} {room : Chatroom} {clients kept pending : List PollFd}
  {entry : PollFd}

theorem moved (sound : Sound setup room clients) (index : Int) :
    Sound setup { room with index } clients := ⟨sound.table, sound.range, sound.records⟩

theorem setUser (sound : Sound setup room clients) (fd : Fd) {client : ClientData}
    (isSound : client.Sound) : Sound setup (room.setUser fd client) clients where
  table := sound.table
  range := sound.range
  records other := by
    by_cases self : other = fd
    · rw [self, setUser_self]
      exact isSound
    · rw [setUser_other self]
      exact sound.records other

theorem record (sound : Sound setup room clients) (event : Event Fd UInt8) :
    Sound setup (room.record event) clients := ⟨sound.table, sound.range, sound.records⟩

theorem storeEvents (sound : Sound setup room clients) (index : Nat) (events : PollEvents) :
    Sound setup (room.storeEvents index events) clients :=
  ⟨sound.table, sound.range, sound.records⟩

/-- A round in which nobody leaves. -/
theorem stays {room' : Chatroom} {events : List (Event Fd UInt8)}
    (sound : Sound setup room' (kept ++ entry :: pending))
    (index : room'.index = (kept.length + 1 : Nat)) (logged : room'.log = room.log ++ events) :
    Advances setup room pending events room' := by
  refine ⟨kept ++ [entry], pending, ?_, List.Perm.refl _, ?_, logged⟩
  · rwa [List.append_assoc, List.singleton_append]
  · rw [index, List.length_append, List.length_singleton]

/-! ## The branches -/

theorem acceptClient (sound : Sound setup room clients) {connfd : Fd}
    (unused : 0 ≤ connfd → room.table.descriptors.isOpen connfd = false)
    (hasRecord : room.table.userCounter < (ChatroomServer.userLimit : Int) →
      connfd < chatFdLimit) :
    ∃ (room' : Chatroom) (fresh : Option PollFd) (events : List (Event Fd UInt8)),
      room.acceptClient connfd = .ok room' ∧ Sound setup room' (clients ++ fresh.toList) ∧
      room'.index = room.index ∧
      (∀ added ∈ fresh, added.revents = 0 ∧
        room.table.descriptors.isOpen added.fd = false) ∧
      room'.log = room.log ++ events ∧ (events = [] ∨ events = [.joined connfd]) := by
  obtain ⟨table', ⟨isTable, -, -, done⟩ | ⟨isTable, inRange, -, -, done⟩⟩ :=
    acceptClient_spec sound.table unused hasRecord
  · refine ⟨_, none, [], done, ?_, rfl, by simp, (List.append_nil _).symm, .inl rfl⟩
    rw [Option.toList_none, List.append_nil]
    exact ⟨isTable, sound.range, sound.records⟩
  · have stored := sound.setUser connfd (sound.records connfd)
    refine ⟨_, some ⟨connfd, 0⟩, [.joined connfd], done, ⟨isTable, ?_, stored.records⟩, rfl, ?_,
      rfl, .inr rfl⟩
    · intro client member
      rcases List.mem_append.mp member with old | added
      · exact sound.range client old
      · obtain rfl : client = ⟨connfd, 0⟩ := List.mem_singleton.mp added
        exact inRange
    · intro added member
      obtain rfl : ⟨connfd, 0⟩ = added := Option.some.inj member
      exact ⟨rfl, unused inRange.1⟩

theorem removeClient (sound : Sound setup room (kept ++ entry :: pending))
    (here : room.index = (kept.length + 1 : Nat)) :
    ∃ room', room.removeClient entry.fd = .ok room' ∧
      Advances setup room pending [.left entry.fd] room' := by
  obtain ⟨final, table', pending', -, isTable, perm, -, -, done⟩ :=
    removeClient_spec sound.table here sound.range
  have stored := sound.setUser entry.fd (sound.records final.fd)
  refine ⟨_, done, kept, pending', ⟨isTable, fun client member => ?_, stored.records⟩, perm, rfl,
    rfl⟩
  have old : client ∈ kept ++ pending := (perm.append_left kept).subset member
  refine sound.range client (List.mem_append.mpr ((List.mem_append.mp old).imp_right ?_))
  exact List.mem_cons_of_mem entry

theorem broadcast (sound : Sound setup room (kept ++ entry :: pending)) :
    ∃ room', room.broadcast entry.fd 1 room.table.userCounter.toNat = .ok room' ∧
      Sound setup room' (kept ++ entry :: pending) ∧ room'.index = room.index ∧
      room'.log = room.log := by
  have counter := sound.table.counter
  have range : ∀ position client, room.Client position client →
      0 ≤ client.fd ∧ client.fd < chatFdLimit :=
    fun position client there => sound.range client (there.mem sound.table)
  obtain ⟨room', done, cast⟩ := broadcast_spec sound.table range entry.fd (Nat.le_refl 1)
    (by omega : ((1 : Nat) : Int) + (room.table.userCounter.toNat : Nat) = _)
  refine ⟨room', done, ⟨cast.table ▸ sound.table, sound.range, fun fd => ⟨?_, ?_⟩⟩, cast.index,
    cast.log⟩
  · intro sender target
    rcases cast.pointers fd with same | told
    · exact (sound.records fd).pointer sender (same ▸ target)
    · obtain rfl := WriteBuf.buf.inj (told.symm.trans target)
      exact sound.range entry (by simp)
  · intro buf held
    exact (sound.records fd).ends buf ((cast.buffers fd).symm.trans held)

theorem receive (sound : Sound setup room (kept ++ entry :: pending))
    (here : room.index = (kept.length + 1 : Nat)) (results : RoundResults) :
    ∃ room', room.receive entry.fd results = .ok room' ∧
      Advances setup room pending
        (match results.bytes with
          | none => if results.eagain then [] else [.left entry.fd]
          | some bytes => [.posted entry.fd bytes]) room' := by
  have range := sound.range entry (by simp)
  have record := sound.records entry.fd
  cases received : results.bytes with
  | none =>
      have emptied : Sound setup (room.setUser entry.fd
          { room.users entry.fd with buf := some (Buffer.zero chatBufferSize) })
          (kept ++ entry :: pending) := by
        refine sound.setUser entry.fd ⟨record.pointer, fun buf held => ?_⟩
        obtain rfl := Option.some.inj held
        exact ⟨[], Buffer.holds_nil rfl⟩
      rw [receive_none range received]
      dsimp only
      by_cases again : results.eagain = true
      · rw [if_pos again, if_pos again]
        exact ⟨_, rfl, emptied.stays here (List.append_nil _).symm⟩
      · rw [if_neg again, if_neg again]
        exact emptied.removeClient here
  | some bytes =>
      have filled : Sound setup (room.setUser entry.fd { room.users entry.fd with
          buf := some ((Buffer.zero chatBufferSize).copyIn 0 bytes) })
          (kept ++ entry :: pending) := by
        refine sound.setUser entry.fd ⟨record.pointer, fun buf held => ?_⟩
        obtain rfl := Option.some.inj held
        exact Buffer.exists_holds_copyIn_zero (length_bytes_lt received)
      have posted := filled.record (.posted entry.fd bytes)
      obtain ⟨room', done, isSound, index, log⟩ := posted.broadcast
      rw [receive_some range received]
      exact ⟨room', done, isSound.stays (index.trans here) log⟩

theorem write (sound : Sound setup room (kept ++ entry :: pending))
    (here : room.index = (kept.length + 1 : Nat))
    (written : room.Written (room.users entry.fd).writeBuf) :
    ∃ room' text, room.write entry.fd = .ok room' ∧
      Advances setup room pending [.handed entry.fd text] room' := by
  have range := sound.range entry (by simp)
  have record := sound.records entry.fd
  cases target : (room.users entry.fd).writeBuf with
  | indeterminate =>
      rw [target] at written
      exact written.elim
  | null =>
      exact ⟨_, [], write_null range target, (sound.record _).stays here rfl⟩
  | buf sender =>
      rw [target] at written
      obtain ⟨buf, held⟩ := Option.isSome_iff_exists.mp written
      obtain ⟨text, holds⟩ := (sound.records sender).ends buf held
      have emptied : ClientData.Sound { room.users entry.fd with writeBuf := .null } :=
        ⟨fun _ isBuf => (by cases isBuf), record.ends⟩
      have cleared := (sound.record (.handed entry.fd text)).setUser entry.fd emptied
      exact ⟨_, text, write_buf range target (record.pointer sender target) held holds,
        (cleared.storeEvents _ _).stays here rfl⟩

/-! ## The rounds -/

theorem dispatch_listening (sound : Sound setup room clients) (here : room.index = 0)
    {results : RoundResults} (inTurn : room.InTurn (.round results))
    (contained : room.Contained setup (.round results)) {revents : PollEvents}
    (found : room.table.entry 0 = .ok ⟨setup.listenfd, revents⟩) :
    ∃ (room' : Chatroom) (fresh : Option PollFd) (events : List (Event Fd UInt8)),
      room.dispatch setup results = .ok room' ∧ Sound setup room' (clients ++ fresh.toList) ∧
      room'.index = room.index ∧
      (∀ added ∈ fresh, added.revents = 0 ∧
        room.table.descriptors.isOpen added.fd = false) ∧
      room'.log = room.log ++ events ∧
      Visit.Served setup ⟨⟨setup.listenfd, revents⟩, results, events⟩ := by
  rw [← here] at found
  have contains := contained.round found
  unfold Contains at contains
  unfold dispatch Visit.Served
  simp only [true_and, ne_eq, not_true_eq_false, false_and] at contains
  simp only [found, ok_bind, true_and, pure_eq_ok]
  have unchanged : Sound setup room (clients ++ (none : Option PollFd).toList) := by
    rwa [Option.toList_none, List.append_nil]
  by_cases readable : (PollFd.mk setup.listenfd revents).has POLLIN = true
  · rw [if_pos readable] at contains ⊢
    simp only [if_pos readable]
    exact sound.acceptClient (inTurn.2 here) contains
  simp only [if_neg readable] at contains ⊢
  by_cases failed : (PollFd.mk setup.listenfd revents).has POLLERR = true
  · simp only [if_pos failed]
    exact ⟨room, none, [], rfl, unchanged, rfl, by simp, (List.append_nil _).symm, rfl⟩
  simp only [if_neg failed] at contains ⊢
  by_cases hungUp : (PollFd.mk setup.listenfd revents).has POLLRDHUP = true
  · rw [if_pos hungUp] at contains
    exact contains.elim
  simp only [if_neg hungUp] at contains ⊢
  by_cases writable : (PollFd.mk setup.listenfd revents).has POLLOUT = true
  · rw [if_pos writable] at contains
    exact contains.elim
  simp only [if_neg writable]
  exact ⟨room, none, [], rfl, unchanged, rfl, by simp, (List.append_nil _).symm, rfl⟩

theorem dispatch_client (sound : Sound setup room (kept ++ entry :: pending))
    (here : room.index = (kept.length + 1 : Nat)) {results : RoundResults}
    (contained : room.Contained setup (.round results)) :
    ∃ room' events, room.dispatch setup results = .ok room' ∧
      Advances setup room pending events room' ∧ Visit.Served setup ⟨entry, results, events⟩ := by
  have member : entry ∈ kept ++ entry :: pending := by simp
  have notListening := sound.table.ne_listenfd member
  have found : room.table.entry room.index = .ok entry := by
    rw [here]
    exact sound.table.entry_eq
  have contains := contained.round found
  unfold Contains at contains
  unfold dispatch Visit.Served
  simp only [notListening, false_and, if_false] at contains
  simp only [found, ok_bind, notListening, false_and, if_false, pure_eq_ok]
  have quiet : Advances setup room pending [] room := sound.stays here (List.append_nil _).symm
  by_cases failed : entry.has POLLERR = true
  · simp only [if_pos failed]
    exact ⟨room, [], rfl, quiet, rfl⟩
  simp only [if_neg failed] at contains ⊢
  by_cases hungUp : entry.has POLLRDHUP = true
  · simp only [if_pos hungUp]
    obtain ⟨room', done, advances⟩ := sound.removeClient here
    exact ⟨room', _, done, advances, rfl⟩
  simp only [if_neg hungUp] at contains ⊢
  by_cases readable : entry.has POLLIN = true
  · simp only [if_pos readable]
    obtain ⟨room', done, advances⟩ := sound.receive here results
    refine ⟨room', _, done, advances, ?_⟩
    cases results.bytes with
    | none => rfl
    | some bytes => rfl
  simp only [if_neg readable] at contains ⊢
  by_cases writable : entry.has POLLOUT = true
  · simp only [if_pos writable] at contains ⊢
    obtain ⟨room', text, done, advances⟩ := sound.write here contains.2
    exact ⟨room', _, done, advances, text, rfl⟩
  · simp only [if_neg writable]
    exact ⟨room, [], rfl, quiet, rfl⟩

theorem polled (sound : Sound setup room clients) (revents : Nat → PollEvents) :
    ∃ clients', Sound setup (room.polled revents) clients' ∧
      (room.polled revents).table.entry 0 = .ok ⟨setup.listenfd, revents 0⟩ ∧
      ⟨setup.listenfd, revents 0⟩ :: clients' =
        ChatroomServer.reported (setup.listenfd :: clients.map PollFd.fd) revents := by
  obtain ⟨clients', isTable, first, reports⟩ := sound.table.polled_spec revents
  refine ⟨clients', ⟨isTable, fun client member => ?_, sound.records⟩, first, reports⟩
  have names := congrArg (List.map PollFd.fd) reports
  rw [ChatroomServer.reported_fds, List.map_cons, List.cons.injEq] at names
  have known : client.fd ∈ clients.map PollFd.fd := names.2 ▸ List.mem_map_of_mem member
  obtain ⟨old, present, same⟩ := List.mem_map.mp known
  exact same ▸ sound.range old present

theorem step (sound : Sound setup room clients) (index : 0 ≤ room.index) {op : RoomOp}
    (inTurn : room.InTurn op) (contained : room.Contained setup op) :
    ∃ room' clients', room.step setup op = .ok room' ∧ Sound setup room' clients' ∧
      0 ≤ room'.index := by
  cases op with
  | poll revents =>
      obtain ⟨clients', isSound, -⟩ := sound.polled revents
      exact ⟨_, clients', rfl, isSound, Int.le_refl 0⟩
  | round results =>
      unfold Chatroom.step
      rcases round_cases sound.table index inTurn.1 with here | ⟨position, entry, here, client⟩
      · obtain ⟨⟨fd, revents⟩, found, rfl⟩ := sound.table.listening_eq
        obtain ⟨room', fresh, -, done, isSound, same, -⟩ :=
          sound.dispatch_listening here inTurn contained found
        simp only [done, ok_bind, pure_eq_ok]
        exact ⟨_, _, rfl, isSound.moved _, by
          dsimp only
          omega⟩
      · obtain ⟨kept, pending, rfl, rfl⟩ := client.split sound.table
        obtain ⟨room', -, done, ⟨kept', pending', isSound, -, place, -⟩, -⟩ :=
          sound.dispatch_client here contained
        simp only [done, ok_bind, pure_eq_ok]
        exact ⟨_, _, rfl, isSound.moved _, by
          dsimp only
          omega⟩

end Sound

/-! ## The passes -/

section Passes

variable {setup : ChatroomSetup} {room : Chatroom} {clients kept pending : List PollFd}

theorem visits_cons {rounds : List RoundResults} {next : Chatroom} {entry : PollFd} {results : RoundResults}
    {events : List (Event Fd UInt8)} (found : room.table.entry room.index = .ok entry)
    (done : room.step setup (.round results) = .ok next) (logged : next.log = room.log ++ events) :
    room.visits setup (results :: rounds) =
      ⟨entry, results, events⟩ :: next.visits setup rounds := by
  simp only [visits, found, done, logged, List.drop_left]

/-- The rounds behind the one for the listening socket. The last entry moves to where a client
has left, which is where the next round is. -/
theorem Sound.rounds {rounds : List RoundResults} (sound : Sound setup room (kept ++ pending))
    (here : room.index = (kept.length + 1 : Nat))
    (run : StepsMeet (fun room op => room.InTurn op ∧ room.Contained setup op)
      (Chatroom.step setup) room (rounds.map .round)) :
    ∃ (room' : Chatroom) (kept' toCome : List PollFd),
      runOps (Chatroom.step setup) room (rounds.map .round) = .ok room' ∧
      Sound setup room' (kept' ++ toCome) ∧ room'.index = (kept'.length + 1 : Nat) ∧
      ((room.visits setup rounds).map Visit.entry ++ toCome).Perm pending ∧
      (room.visits setup rounds).length = rounds.length ∧
      ∀ visit ∈ room.visits setup rounds, visit.Served setup := by
  induction rounds generalizing room kept pending with
  | nil => exact ⟨room, kept, pending, rfl, sound, here, List.Perm.refl _, rfl, by simp [visits]⟩
  | cons results rounds ih =>
      obtain ⟨⟨inTurn, contained⟩, rest⟩ := run
      cases pending with
      | nil =>
          have counter := sound.table.counter
          have inside := inTurn.1
          rw [List.append_nil] at counter
          omega
      | cons entry pending =>
          obtain ⟨moved, events, done, ⟨kept', pending', isSound, perm, place, logged⟩, served⟩ :=
            sound.dispatch_client here contained
          let next : Chatroom := { moved with index := moved.index + 1 }
          have stepped : room.step setup (.round results) = .ok next := by
            unfold Chatroom.step
            simp only [done, ok_bind, pure_eq_ok]
            rfl
          have found : room.table.entry room.index = .ok entry := by
            rw [here]
            exact sound.table.entry_eq
          simp only [stepped] at rest
          have nextPlace : next.index = (kept'.length + 1 : Nat) := by
            simp only [next]
            omega
          obtain ⟨room', kept'', toCome, finished, isSound', place', all, count, later⟩ :=
            ih (isSound.moved _) nextPlace rest
          rw [visits_cons found stepped logged]
          refine ⟨room', kept'', toCome, ?_, isSound', place', ?_, congrArg (· + 1) count, ?_⟩
          · rw [List.map_cons, runOps, stepped]
            exact finished
          · exact (all.trans perm).cons entry
          · exact List.forall_mem_cons.mpr ⟨served, later⟩

/-- A pass and the entries that have not had their round yet. -/
theorem Sound.pass {rounds : List RoundResults} (sound : Sound setup room clients)
    {revents : Nat → PollEvents}
    (run : StepsMeet (fun room op => room.InTurn op ∧ room.Contained setup op)
      (Chatroom.step setup) room (.poll revents :: rounds.map .round)) :
    ∃ (room' : Chatroom) (fresh : Option PollFd) (toCome : List PollFd),
      runOps (Chatroom.step setup) room (.poll revents :: rounds.map .round) = .ok room' ∧
      (((room.polled revents).visits setup rounds).map Visit.entry ++ toCome).Perm
        (ChatroomServer.reported (setup.listenfd :: clients.map PollFd.fd) revents ++
          fresh.toList) ∧
      ((room.polled revents).visits setup rounds).length = rounds.length ∧
      (∀ visit ∈ (room.polled revents).visits setup rounds, visit.Served setup) ∧
      (∀ added ∈ fresh, added.revents = 0 ∧
        room.table.descriptors.isOpen added.fd = false) ∧
      (room'.table.userCounter < room'.index → toCome = []) := by
  obtain ⟨-, rest⟩ := run
  obtain ⟨clients', isSound, found, reports⟩ := sound.polled revents
  rw [← reports]
  cases rounds with
  | nil =>
      refine ⟨room.polled revents, none, ⟨setup.listenfd, revents 0⟩ :: clients', rfl, ?_, rfl,
        by simp [visits], by simp, fun behind => ?_⟩
      · rw [Option.toList_none, List.append_nil]
        exact List.Perm.refl _
      · have counter := isSound.table.counter
        have first : (room.polled revents).index = 0 := rfl
        omega
  | cons results rounds =>
      obtain ⟨⟨inTurn, contained⟩, rest⟩ := rest
      obtain ⟨moved, fresh, events, done, isSound', place, isNew, logged, served⟩ :=
        isSound.dispatch_listening rfl inTurn contained found
      let next : Chatroom := { moved with index := moved.index + 1 }
      have stepped : (room.polled revents).step setup (.round results) = .ok next := by
        unfold Chatroom.step
        simp only [done, ok_bind, pure_eq_ok]
        rfl
      simp only [stepped] at rest
      have nextPlace : next.index = (([] : List PollFd).length + 1 : Nat) := by
        simp only [next, place]
        rfl
      have nextSound : Sound setup next ([] ++ (clients' ++ fresh.toList)) := isSound'.moved _
      obtain ⟨room', kept, toCome, finished, isSound'', place', all, count, later⟩ :=
        nextSound.rounds nextPlace rest
      rw [visits_cons found stepped logged]
      refine ⟨room', fresh, toCome, ?_, all.cons _, congrArg (· + 1) count,
        List.forall_mem_cons.mpr ⟨served, later⟩, isNew, fun behind => ?_⟩
      · rw [runOps, Chatroom.step, ok_bind, List.map_cons, runOps, stepped]
        exact finished
      · have counter := isSound''.table.counter
        rw [List.length_append] at counter
        exact List.eq_nil_of_length_eq_zero (by omega)

end Passes

end Chatroom

/-- As long as the rounds stay inside the records, the table holds the listening socket and the
open clients, and a pass is at every entry that was reported exactly once. -/
theorem chatroomServer_pollTable (setup : ChatroomSetup) (ops : List RoomOp)
    (run : StepsMeet (fun room op => room.InTurn op ∧ room.Contained setup op)
      (Chatroom.step setup) (Chatroom.start setup) ops) :
    ∃ room clients, runOps (Chatroom.step setup) (Chatroom.start setup) ops = .ok room ∧
      ChatroomServer.Table setup room.table clients ∧ 0 ≤ room.table.userCounter ∧
      room.table.userCounter ≤ ChatroomServer.userLimit ∧
      ∀ revents rounds,
        StepsMeet (fun room op => room.InTurn op ∧ room.Contained setup op) (Chatroom.step setup)
          room (.poll revents :: rounds.map .round) →
        ∃ (room' : Chatroom) (fresh : Option PollFd) (toCome : List PollFd),
          runOps (Chatroom.step setup) room (.poll revents :: rounds.map .round) = .ok room' ∧
          (((room.polled revents).visits setup rounds).map Chatroom.Visit.entry ++ toCome).Perm
            (ChatroomServer.reported (setup.listenfd :: clients.map PollFd.fd) revents ++
              fresh.toList) ∧
          ((room.polled revents).visits setup rounds).length = rounds.length ∧
          (∀ visit ∈ (room.polled revents).visits setup rounds, visit.Served setup) ∧
          (∀ added ∈ fresh, added.revents = 0 ∧
            room.table.descriptors.isOpen added.fd = false) ∧
          (room'.table.userCounter < room'.index → toCome = []) := by
  have start : (∃ clients, Chatroom.Sound setup (Chatroom.start setup) clients) ∧
      0 ≤ (Chatroom.start setup).index :=
    ⟨⟨[], Chatroom.sound_start setup⟩, Int.zero_le_ofNat 1⟩
  obtain ⟨room, done, ⟨clients, sound⟩, -⟩ := runOps_preserves
    (fun room => (∃ clients, Chatroom.Sound setup room clients) ∧ 0 ≤ room.index)
    (fun room op invariant met => by
      obtain ⟨⟨clients, sound⟩, index⟩ := invariant
      obtain ⟨room', clients', done, isSound, later⟩ := sound.step index met.1 met.2
      exact ⟨room', done, ⟨clients', isSound⟩, later⟩) start run
  have counter := sound.table.counter
  have limit := sound.table.counter_le
  exact ⟨room, clients, done, sound.table, by omega, by omega, fun revents rounds pass =>
    sound.pass pass⟩

/-- A call of `poll` with these reports, and the rounds behind it. -/
def tablePass (revents : List PollEvents) (rounds : List RoundResults) : List RoomOp :=
  .poll (fun index => revents.getD index 0) :: rounds.map .round

/-- Three clients join; the first of them leaves while a fourth one joins; then the last two of
the table are lost in one pass, one of them by `recv`. -/
def comingAndGoing : List RoomOp :=
  let accepts := fun connfd count => List.replicate count (⟨connfd, none, false⟩ : RoundResults)
  tablePass [POLLIN] (accepts 4 2) ++ tablePass [POLLIN] (accepts 5 3) ++
    tablePass [POLLIN] (accepts 6 4) ++ tablePass [POLLIN, POLLRDHUP] (accepts 7 5) ++
    tablePass [0, 0, POLLRDHUP, POLLIN] (accepts (-1) 4)

theorem chatroomServer_pollTable_comingAndGoing :
    ∃ room clients, runOps (Chatroom.step sampleChatroom) (Chatroom.start sampleChatroom)
        comingAndGoing = .ok room ∧
      ChatroomServer.Table sampleChatroom room.table clients ∧ 0 ≤ room.table.userCounter ∧
      room.table.userCounter ≤ ChatroomServer.userLimit ∧
      ∀ revents rounds,
        StepsMeet (fun room op => room.InTurn op ∧ room.Contained sampleChatroom op)
          (Chatroom.step sampleChatroom) room (.poll revents :: rounds.map .round) →
        ∃ (room' : Chatroom) (fresh : Option PollFd) (toCome : List PollFd),
          runOps (Chatroom.step sampleChatroom) room (.poll revents :: rounds.map .round) =
            .ok room' ∧
          (((room.polled revents).visits sampleChatroom rounds).map Chatroom.Visit.entry ++
            toCome).Perm (ChatroomServer.reported
              (sampleChatroom.listenfd :: clients.map PollFd.fd) revents ++ fresh.toList) ∧
          ((room.polled revents).visits sampleChatroom rounds).length = rounds.length ∧
          (∀ visit ∈ (room.polled revents).visits sampleChatroom rounds,
            visit.Served sampleChatroom) ∧
          (∀ added ∈ fresh, added.revents = 0 ∧
            room.table.descriptors.isOpen added.fd = false) ∧
          (room'.table.userCounter < room'.index → toCome = []) :=
  chatroomServer_pollTable sampleChatroom comingAndGoing (by decide +kernel)

/-- The first client has no record: its address is stored behind the last one. -/
theorem chatroomServer_outOfRecords :
    StepsMeet Chatroom.InTurn (Chatroom.step sampleChatroom) (Chatroom.start sampleChatroom)
        (tablePass [POLLIN] [⟨65535, none, false⟩]) ∧
      runOps (Chatroom.step sampleChatroom) (Chatroom.start sampleChatroom)
        (tablePass [POLLIN] [⟨65535, none, false⟩]) = .error .outOfBounds := by
  constructor
  · decide +kernel
  · rfl

end HPLinuxServer.Execution
