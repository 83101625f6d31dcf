import HPLinuxServer.Execution.ChatroomServer
import Mathlib.Data.List.Nodup

/-!
# Chat room server: the poll table

Which descriptors are in the table while clients are appended and removed. A removal
fills the hole with the last entry, so what is behind it stays the same up to its order.
-/

set_option autoImplicit false

namespace HPLinuxServer.Execution

open Memory Kernel

namespace ChatroomServer

/-- The entries for these descriptors with what `poll` reports. -/
def reported (fds : List Fd) (revents : Nat → PollEvents) : List PollFd :=
  fds.mapIdx fun index fd => ⟨fd, revents index⟩

theorem reported_fds (fds : List Fd) (revents : Nat → PollEvents) :
    (reported fds revents).map PollFd.fd = fds := by
  apply List.ext_getElem?
  intro index
  simp only [reported, List.getElem?_map, List.getElem?_mapIdx, Option.map_map]
  exact Option.map_id_apply

/-- The table holds the listening socket and the clients, and these are the open
descriptors that the server was not started with. -/
structure Table (setup : ChatroomSetup) (server : ChatroomServer) (clients : List PollFd) :
    Prop where
  fds : ∃ listening rest, server.fds = some listening :: (clients.map some ++ rest) ∧
    listening.fd = setup.listenfd
  size : server.fds.length = userLimit + 1
  counter : server.userCounter = clients.length
  distinct : (clients.map PollFd.fd).Nodup
  accepted : ∀ fd, fd ∈ clients.map PollFd.fd ↔
    server.descriptors.isOpen fd = true ∧ setup.own fd = false
  kept : ∀ fd, setup.own fd = true → server.descriptors.isOpen fd = true

theorem table_start (setup : ChatroomSetup) : Table setup (start setup) [] where
  fds := ⟨⟨setup.listenfd, 0⟩, List.replicate userLimit none, rfl, rfl⟩
  size := rfl
  counter := rfl
  distinct := List.nodup_nil
  accepted := by
    intro fd
    simp [start]
  kept _ own := own

namespace Table

variable {setup : ChatroomSetup} {server : ChatroomServer} {clients kept pending : List PollFd}
  {entry : PollFd}

theorem counter_le (table : Table setup server clients) : clients.length ≤ userLimit := by
  obtain ⟨listening, rest, fds, -⟩ := table.fds
  have size := table.size
  rw [fds] at size
  simp only [List.length_cons, List.length_append, List.length_map] at size
  omega

theorem entry_eq (table : Table setup server (kept ++ entry :: pending)) :
    server.entry (kept.length + 1 : Nat) = .ok entry := by
  obtain ⟨listening, rest, fds, -⟩ := table.fds
  have room := table.counter_le
  have size := table.size
  simp only [List.length_append, List.length_cons] at room
  have found : server.fds[kept.length + 1]? = some (some entry) := by
    rw [fds]
    simp
  unfold ChatroomServer.entry
  rw [if_pos (by omega), Int.toNat_natCast, found]

theorem listening_eq (table : Table setup server clients) :
    ∃ listening, server.entry 0 = .ok listening ∧ listening.fd = setup.listenfd := by
  obtain ⟨listening, rest, fds, same⟩ := table.fds
  refine ⟨listening, ?_, same⟩
  unfold ChatroomServer.entry
  rw [if_pos (by rw [table.size]; decide), fds]
  rfl

theorem ne_listenfd (table : Table setup server clients) (member : entry ∈ clients) :
    entry.fd ≠ setup.listenfd := by
  intro same
  have client := (table.accepted entry.fd).mp (List.mem_map_of_mem member)
  rw [same, setup.listenfd_own] at client
  exact nomatch client.2

theorem without (table : Table setup server clients) {others : List PollFd}
    (perm : (entry :: others).Perm clients) {fds : List (Option PollFd)}
    (shape : ∃ listening rest, fds = some listening :: (others.map some ++ rest) ∧
      listening.fd = setup.listenfd)
    (size : fds.length = server.fds.length) :
    Table setup { server with
      fds
      userCounter := server.userCounter - 1
      descriptors := server.descriptors.close entry.fd } others := by
  have distinct := ((perm.map PollFd.fd).nodup_iff).mpr table.distinct
  obtain ⟨fresh, distinctOthers⟩ := List.nodup_cons.mp distinct
  have members : ∀ fd, fd ∈ clients.map PollFd.fd ↔ fd = entry.fd ∨ fd ∈ others.map PollFd.fd := by
    intro fd
    rw [← (perm.map PollFd.fd).mem_iff, List.map_cons, List.mem_cons]
  constructor
  · exact shape
  · exact size.trans table.size
  · have counter := table.counter
    rw [← perm.length_eq, List.length_cons] at counter
    simp only
    omega
  · exact distinctOthers
  · intro fd
    have before := (members fd).symm.trans (table.accepted fd)
    simp only [Descriptors.isOpen_close]
    constructor
    · intro member
      have different : fd ≠ entry.fd := fun same => fresh (same ▸ member)
      obtain ⟨isOpen, foreign⟩ := before.mp (.inr member)
      exact ⟨⟨different, isOpen⟩, foreign⟩
    · rintro ⟨⟨different, isOpen⟩, foreign⟩
      exact (before.mpr ⟨isOpen, foreign⟩).resolve_left different
  · intro fd own
    simp only [Descriptors.isOpen_close]
    refine ⟨?_, table.kept fd own⟩
    rintro rfl
    have foreign := ((table.accepted entry.fd).mp ((members entry.fd).mpr (.inl rfl))).2
    rw [own] at foreign
    cases foreign

theorem removeClient_spec (table : Table setup server (kept ++ entry :: pending)) :
    ∃ server' pending' last, server.removeClient (kept.length + 1 : Nat) entry.fd =
        .ok (server', (kept.length : Nat)) ∧
      Table setup server' (kept ++ pending') ∧ pending'.Perm pending ∧
      server.entry server.userCounter = .ok last ∧
      server'.fds = server.fds.set (kept.length + 1) (some last) ∧
      server'.userCounter = server.userCounter - 1 := by
  obtain ⟨listening, rest, fds, same⟩ := table.fds
  have size := table.size
  have counter := table.counter
  have room := table.counter_le
  -- the last entry of the table
  obtain ⟨mid, last, split⟩ : ∃ mid last, entry :: pending = mid ++ [last] :=
    ⟨_, _, (List.dropLast_append_getLast (List.cons_ne_nil entry pending)).symm⟩
  have lengths := congrArg List.length split
  simp only [List.length_cons, List.length_append, List.length_nil] at lengths counter room
  have foundLast : server.entry server.userCounter = .ok last := by
    have tableLast := table
    rw [split, ← List.append_assoc] at tableLast
    have found := tableLast.entry_eq
    rwa [List.length_append, show ((kept.length + mid.length + 1 : Nat) : Int) =
      server.userCounter by omega] at found
  have filled : server.fds.set (kept.length + 1) (some last) =
      some listening :: (kept.map some ++ some last :: (pending.map some ++ rest)) := by
    simp [fds]
  have stored : (server.close entry.fd).storeEntry (kept.length + 1 : Nat) last =
      .ok { server with
        fds := some listening :: (kept.map some ++ some last :: (pending.map some ++ rest))
        descriptors := server.descriptors.close entry.fd } := by
    unfold storeEntry ChatroomServer.close
    rw [if_pos (by simp only; omega), Int.toNat_natCast]
    simp only [filled]
  have removed : server.removeClient (kept.length + 1 : Nat) entry.fd = .ok ({ server with
      fds := some listening :: (kept.map some ++ some last :: (pending.map some ++ rest))
      userCounter := server.userCounter - 1
      descriptors := server.descriptors.close entry.fd }, (kept.length : Nat)) := by
    have loaded : (server.close entry.fd).entry (server.close entry.fd).userCounter = .ok last :=
      foundLast
    unfold removeClient
    simp only [loaded, ok_bind, stored, pure_eq_ok]
    congr 2
    omega
  cases mid with
  | nil =>
      obtain ⟨rfl, rfl⟩ : entry = last ∧ pending = [] := by simpa using split
      refine ⟨_, [], entry, removed, ?_, List.Perm.refl _, foundLast, filled.symm, rfl⟩
      rw [List.append_nil]
      apply table.without (List.perm_append_singleton entry kept).symm
      · exact ⟨listening, some entry :: rest, by simp, same⟩
      · simp [fds]
  | cons first mid =>
      obtain ⟨rfl, rfl⟩ : entry = first ∧ pending = mid ++ [last] := by simpa using split
      have perm : (last :: mid).Perm (mid ++ [last]) := (List.perm_append_singleton last mid).symm
      refine ⟨_, last :: mid, last, removed, ?_, perm, foundLast, filled.symm, rfl⟩
      apply table.without
      · apply List.perm_middle.symm.trans
        exact (perm.cons entry).append_left kept
      · exact ⟨listening, some last :: rest, by simp, same⟩
      · simp [fds]

/-- A descriptor that is not open is neither a client's nor one of the server's own. -/
theorem of_closed (table : Table setup server clients) {fd : Fd}
    (closed : server.descriptors.isOpen fd = false) :
    fd ∉ clients.map PollFd.fd ∧ setup.own fd = false := by
  constructor
  · intro member
    have isOpen := ((table.accepted fd).mp member).1
    rw [closed] at isOpen
    exact Bool.false_ne_true isOpen
  · apply Bool.eq_false_iff.mpr
    intro own
    have isOpen := table.kept fd own
    rw [closed] at isOpen
    exact Bool.false_ne_true isOpen

/-- A client that is sent away at once leaves the table as it was. -/
theorem turnedAway (table : Table setup server clients) {connfd : Fd}
    (closed : server.descriptors.isOpen connfd = false) :
    Table setup { server with
      descriptors := (server.descriptors.opened connfd).close connfd } clients := by
  have same : ∀ fd, ((server.descriptors.opened connfd).close connfd).isOpen fd = true ↔
      server.descriptors.isOpen fd = true := by
    intro fd
    simp only [Descriptors.isOpen_close, Descriptors.isOpen_opened]
    constructor
    · rintro ⟨different, same | isOpen⟩
      · exact absurd same different
      · exact isOpen
    · intro isOpen
      refine ⟨?_, .inr isOpen⟩
      rintro rfl
      rw [closed] at isOpen
      exact Bool.false_ne_true isOpen
  constructor
  · exact table.fds
  · exact table.size
  · exact table.counter
  · exact table.distinct
  · intro fd
    exact (table.accepted fd).trans (and_congr_left fun _ => (same fd).symm)
  · intro fd own
    exact (same fd).mpr (table.kept fd own)

/-- A new client takes the first entry behind the others. -/
theorem append (table : Table setup server clients) {connfd : Fd}
    (closed : server.descriptors.isOpen connfd = false) {listening : PollFd}
    {entry : Option PollFd} {rest : List (Option PollFd)}
    (fds : server.fds = some listening :: (clients.map some ++ entry :: rest))
    (isListening : listening.fd = setup.listenfd) :
    Table setup { server with
      fds := some listening :: ((clients ++ [(⟨connfd, 0⟩ : PollFd)]).map some ++ rest)
      userCounter := server.userCounter + 1
      descriptors := server.descriptors.opened connfd } (clients ++ [⟨connfd, 0⟩]) := by
  obtain ⟨fresh, foreign⟩ := table.of_closed closed
  have size := table.size
  have lengths := congrArg List.length fds
  constructor
  · exact ⟨listening, rest, rfl, isListening⟩
  · simp only [List.length_cons, List.length_append, List.length_map, List.length_nil] at *
    omega
  · simp [table.counter]
  · rw [List.map_append]
    have distinct := table.distinct.concat fresh
    rwa [List.concat_eq_append] at distinct
  · intro fd
    simp only [List.map_append, List.map_cons, List.map_nil, List.mem_append, List.mem_singleton,
      Descriptors.isOpen_opened]
    rw [table.accepted fd]
    constructor
    · rintro (⟨isOpen, notOwn⟩ | rfl)
      · exact ⟨.inr isOpen, notOwn⟩
      · exact ⟨.inl rfl, foreign⟩
    · rintro ⟨rfl | isOpen, notOwn⟩
      · exact .inr rfl
      · exact .inl ⟨isOpen, notOwn⟩
  · intro fd own
    exact (Descriptors.isOpen_opened _ _).mpr (.inr (table.kept fd own))

/-- A client is sent away, or it is accepted into the next free entry. -/
theorem acceptClient_spec (table : Table setup server clients) {connfd : Fd}
    (unused : 0 ≤ connfd → server.descriptors.isOpen connfd = false) :
    ∃ server', server.acceptClient connfd = .ok server' ∧
      ((connfd < 0 ∨ server.userCounter ≥ (userLimit : Int)) ∧ Table setup server' clients ∧
          server'.fds = server.fds ∧ server'.userCounter = server.userCounter ∨
        ¬(connfd < 0 ∨ server.userCounter ≥ (userLimit : Int)) ∧
          Table setup server' (clients ++ [⟨connfd, 0⟩]) ∧
          server'.fds = server.fds.set (clients.length + 1) (some ⟨connfd, 0⟩) ∧
          server'.userCounter = server.userCounter + 1) := by
  unfold acceptClient
  by_cases failed : connfd < 0
  · rw [if_pos failed]
    exact ⟨server, rfl, .inl ⟨.inl failed, table, rfl, rfl⟩⟩
  rw [if_neg failed]
  have closed := unused (Int.not_lt.mp failed)
  have counter := table.counter
  simp only
  by_cases full : server.userCounter ≥ (userLimit : Int)
  · rw [if_pos full]
    exact ⟨_, rfl, .inl ⟨.inr full, table.turnedAway closed, rfl, rfl⟩⟩
  · rw [if_neg full]
    obtain ⟨listening, rest, fds, isListening⟩ := table.fds
    have size := table.size
    have lengths := congrArg List.length fds
    simp only [List.length_cons, List.length_append, List.length_map] at lengths
    obtain ⟨unusedEntry, rest, rfl⟩ : ∃ first others, rest = first :: others :=
      List.exists_cons_of_length_pos (by omega)
    have stored : server.fds.set (clients.length + 1) (some ⟨connfd, 0⟩) =
        some listening :: ((clients ++ [(⟨connfd, 0⟩ : PollFd)]).map some ++ rest) := by
      simp [fds]
    refine ⟨_, ?_, .inr ⟨not_or.mpr ⟨failed, full⟩, table.append closed fds isListening,
      stored.symm, rfl⟩⟩
    unfold storeEntry
    have position : (server.userCounter + 1).toNat = clients.length + 1 := by omega
    rw [if_pos (by simp only; omega)]
    simp only [position, stored]

/-- `poll` reports on the listening socket and the clients. -/
theorem polled_spec (table : Table setup server clients) (revents : Nat → PollEvents) :
    ∃ clients', Table setup (server.polled revents) clients' ∧
      (server.polled revents).entry 0 = .ok ⟨setup.listenfd, revents 0⟩ ∧
      ⟨setup.listenfd, revents 0⟩ :: clients' =
        reported (setup.listenfd :: clients.map PollFd.fd) revents := by
  obtain ⟨listening, rest, fds, isListening⟩ := table.fds
  have count : (server.userCounter + 1).toNat = ((listening :: clients).map some).length := by
    rw [table.counter, List.length_map, List.length_cons]
    omega
  have shape : server.fds = (listening :: clients).map some ++ rest := fds
  let clients' := clients.mapIdx fun index client =>
    { client with revents := revents (index + 1) }
  have reports : (server.polled revents).fds =
      some ⟨setup.listenfd, revents 0⟩ :: (clients'.map some ++ rest) := by
    unfold polled
    simp only [shape]
    rw [count, List.take_left, List.drop_left]
    have others : (clients.map some).mapIdx (fun index entry =>
        entry.map fun entry => { entry with revents := revents (index + 1) }) =
          clients'.map some := by
      apply List.mapIdx_eq_iff.mpr
      intro index
      simp only [clients', List.getElem?_map, List.getElem?_mapIdx, Option.map_map]
      rfl
    rw [List.map_cons, List.mapIdx_cons, others, ← isListening]
    rfl
  have names : clients'.map PollFd.fd = clients.map PollFd.fd := by
    apply List.ext_getElem?
    intro index
    simp only [clients', List.getElem?_map, List.getElem?_mapIdx, Option.map_map]
    rfl
  refine ⟨clients', ⟨⟨_, rest, reports, rfl⟩, ?_, ?_, ?_, ?_, ?_⟩, ?_, ?_⟩
  · rw [reports, ← table.size, fds]
    simp [clients']
  · rw [List.length_mapIdx]
    exact table.counter
  · rw [names]
    exact table.distinct
  · rw [names]
    exact table.accepted
  · exact table.kept
  · unfold ChatroomServer.entry
    rw [if_pos (by rw [reports]; simp; omega), reports]
    rfl
  · unfold reported
    rw [List.mapIdx_cons]
    refine congrArg (List.cons _) (List.ext_getElem? fun index => ?_)
    simp only [clients', List.getElem?_mapIdx, List.getElem?_map, Option.map_map]
    rfl

end Table

end ChatroomServer

/-- The server with its standard streams and its listening socket. -/
def sampleChatroom : ChatroomSetup where
  listenfd := 3
  own fd := decide (0 ≤ fd ∧ fd ≤ 3)
  listenfd_own := rfl

end HPLinuxServer.Execution
