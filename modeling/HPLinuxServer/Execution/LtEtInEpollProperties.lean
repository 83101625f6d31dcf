import HPLinuxServer.Execution.LtEtInEpoll
import HPLinuxServer.Refinement.Runs
import Mathlib.Data.List.Basic

/-!
# Whom the server of `LT_ET_in_epoll.c` serves

Once it receives from a client it stays with this client to the end, since `recv` waits for
more: what it prints is the streams of its clients one after another, and whoever connects
or sends in the meantime has to wait.
-/

set_option autoImplicit false

namespace HPLinuxServer.Execution

open Kernel Refinement

namespace EtServer

/-- The client whose connection the server is receiving from. -/
def current (server : EtServer) : Option Nat :=
  (server.place.sockfd.filter server.descriptors.isOpen).map server.clientOf

/-- The server has closed the connection and is about to receive from it. -/
def stale (server : EtServer) : Bool :=
  server.place.sockfd.any fun sockfd => !server.descriptors.isOpen sockfd

/-- The lines of output for a client. -/
def outputOf (server : EtServer) (client : Nat) : List Got :=
  server.output.filter fun got => got.client = client

/-- What the server has received from a client. -/
def heard (server : EtServer) (client : Nat) : List UInt8 :=
  (server.outputOf client).flatMap Got.bytes

/-- The client has hung up in this way. -/
def ended (server : EtServer) (ending : Ending) (client : Nat) : Bool :=
  server.clients[client]?.any fun peer => peer.ending = some ending

/-- The clients have been served in this order, each from its first byte to its end, and the
one being served comes behind them. Every connection is closed, and one that ended by
end-of-file is closed a second time. -/
structure Serial (server : EtServer) (served : List Nat) : Prop where
  distinct : (served ++ server.current.toList).Nodup
  grouped : server.output = (served ++ server.current.toList).flatMap server.outputOf
  heard : ∀ client peer, server.clients[client]? = some peer → server.heard client <+: peer.stream
  complete : ∀ client ∈ served, ∃ peer, server.clients[client]? = some peer ∧
    server.heard client = peer.stream ∧ peer.ending.isSome = true
  closed : server.descriptors.closes.countP (fun call => call.2) = served.length
  closedAgain : server.descriptors.closes.countP (fun call => !call.2) + server.stale.toNat =
    served.countP (server.ended .endOfFile)

/-! ## The invariant -/

/-- The descriptor of a connection. -/
def Connected (server : EtServer) (fd : Fd) : Prop :=
  (server.descriptors.epoll fd).isSome = true ∧ fd ≠ server.listenfd

/-- What the kernel and the server know fits together. -/
structure Sound (server : EtServer) : Prop where
  listening : (server.descriptors.epoll server.listenfd).isSome = true
  levelTriggered : ∀ fd events, server.descriptors.epoll fd = some events →
    events = EPOLLIN ∧ server.descriptors.isOpen fd = true
  connected : ∀ fd, server.Connected fd →
    server.clientOf fd < server.clients.length ∧ server.clientOf fd ∉ server.backlog
  apart : ∀ fd other, server.Connected fd → server.Connected other →
    server.clientOf fd = server.clientOf other → fd = other
  backlogDistinct : server.backlog.Nodup
  backlogKnown : ∀ client ∈ server.backlog, client < server.clients.length
  batch : (server.place.sockfd.toList ++ server.place.events.map EtEvent.fd).Nodup
  listed : ∀ event ∈ server.place.events, (server.descriptors.epoll event.fd).isSome = true
  queued : ∀ event ∈ server.place.events, event.fd = server.listenfd → server.backlog ≠ []
  receiving : ∀ sockfd ∈ server.place.sockfd, sockfd ≠ server.listenfd ∧
    (server.descriptors.isOpen sockfd = true →
      (server.descriptors.epoll sockfd).isSome = true)

/-- What has become of the clients, `served` being those that the server is done with. -/
structure Served (server : EtServer) (served : List Nat) : Prop where
  distinct : served.Nodup
  grouped : server.output = (served ++ server.current.toList).flatMap server.outputOf
  taken : ∀ client, server.heard client = (server.clients[client]?.map Peer.taken).getD []
  complete : ∀ client ∈ served, ∃ peer, server.clients[client]? = some peer ∧
    peer.waiting = [] ∧ peer.ending.isSome = true
  unserved : ∀ fd, server.Connected fd → server.clientOf fd ∉ served
  unaccepted : ∀ client ∈ server.backlog, client ∉ served
  closed : server.descriptors.closes.countP (fun call => call.2) = served.length
  closedAgain : server.descriptors.closes.countP (fun call => !call.2) + server.stale.toNat =
    served.countP (server.ended .endOfFile)

variable {server : EtServer} {served : List Nat}

theorem Sound.current_connected (sound : server.Sound) {sockfd : Fd}
    (receiving : sockfd ∈ server.place.sockfd) (isOpen : server.descriptors.isOpen sockfd = true) :
    server.Connected sockfd :=
  ⟨(sound.receiving sockfd receiving).2 isOpen, (sound.receiving sockfd receiving).1⟩

theorem Sound.of_current (sound : server.Sound) {client : Nat}
    (serves : server.current = some client) :
    ∃ sockfd, server.Connected sockfd ∧ server.clientOf sockfd = client := by
  obtain ⟨sockfd, filtered, isClient⟩ := Option.map_eq_some_iff.mp serves
  obtain ⟨receiving, isOpen⟩ := Option.filter_eq_some_iff.mp filtered
  exact ⟨sockfd, sound.current_connected receiving isOpen, isClient⟩

theorem current_receiving {sockfd : Fd} {later : List EtEvent}
    (receiving : server.place = .receiving sockfd later)
    (isOpen : server.descriptors.isOpen sockfd = true) :
    server.current = some (server.clientOf sockfd) := by
  unfold current
  rw [receiving]
  change ((some sockfd).filter server.descriptors.isOpen).map server.clientOf = _
  rw [Option.filter_some_pos isOpen]
  rfl

theorem current_stale {sockfd : Fd} {later : List EtEvent}
    (receiving : server.place = .receiving sockfd later)
    (isClosed : server.descriptors.isOpen sockfd = false) : server.current = none := by
  unfold current
  rw [receiving]
  change ((some sockfd).filter server.descriptors.isOpen).map server.clientOf = _
  rw [Option.filter_some_neg (by rw [isClosed])]
  rfl

theorem current_eq_none (idle : server.place.sockfd = none) : server.current = none := by
  unfold current
  rw [idle]
  rfl

theorem stale_receiving {sockfd : Fd} {later : List EtEvent}
    (receiving : server.place = .receiving sockfd later) :
    server.stale = !server.descriptors.isOpen sockfd := by
  unfold stale
  rw [receiving]
  rfl

theorem stale_eq_false (idle : server.place.sockfd = none) : server.stale = false := by
  unfold stale
  rw [idle]
  rfl

theorem start_sound (listenfd : Fd) {own : Fd → Bool} (isOwn : own listenfd = true) :
    (start listenfd own).Sound where
  listening := by simp [start]
  levelTriggered fd events registered := by
    unfold start at registered ⊢
    dsimp only at registered ⊢
    split at registered
    · subst_vars
      exact ⟨(Option.some.inj registered).symm, isOwn⟩
    · cases registered
  connected fd connected := by
    obtain ⟨registered, other⟩ := connected
    unfold start at registered other
    dsimp only at registered other
    rw [if_neg other] at registered
    cases registered
  apart fd other connected := by
    obtain ⟨registered, different⟩ := connected
    unfold start at registered different
    dsimp only at registered different
    rw [if_neg different] at registered
    cases registered
  backlogDistinct := List.nodup_nil
  backlogKnown _ member := absurd member List.not_mem_nil
  batch := List.nodup_nil
  listed _ member := absurd member List.not_mem_nil
  queued _ member := absurd member List.not_mem_nil
  receiving _ member := by cases member

theorem start_served (listenfd : Fd) (own : Fd → Bool) : (start listenfd own).Served [] where
  distinct := List.nodup_nil
  grouped := rfl
  taken _ := rfl
  complete _ member := absurd member List.not_mem_nil
  unserved _ _ := List.not_mem_nil
  unaccepted _ _ := List.not_mem_nil
  closed := rfl
  closedAgain := rfl

/-! ### What the clients do -/

theorem Sound.change (sound : server.Sound) (client : Nat) (change : Peer → Peer) :
    (server.change client change).Sound where
  listening := sound.listening
  levelTriggered := sound.levelTriggered
  connected fd connected := by
    obtain ⟨known, accepted⟩ := sound.connected fd connected
    exact ⟨Nat.lt_of_lt_of_eq known (List.length_modify _ _ _).symm, accepted⟩
  apart := sound.apart
  backlogDistinct := sound.backlogDistinct
  backlogKnown other member :=
    Nat.lt_of_lt_of_eq (sound.backlogKnown other member) (List.length_modify _ _ _).symm
  batch := sound.batch
  listed := sound.listed
  queued := sound.queued
  receiving := sound.receiving

theorem Sound.connect (sound : server.Sound) : (server.step .connect).Sound where
  listening := sound.listening
  levelTriggered := sound.levelTriggered
  connected fd connected := by
    obtain ⟨known, accepted⟩ := sound.connected fd connected
    refine ⟨Nat.lt_of_lt_of_le known (by simp [step]), fun member => ?_⟩
    rcases List.mem_append.mp member with before | new
    · exact accepted before
    · exact Nat.ne_of_lt known (List.mem_singleton.mp new)
  apart := sound.apart
  backlogDistinct := by
    refine List.nodup_append.mpr ⟨sound.backlogDistinct, List.pairwise_singleton _ _, ?_⟩
    intro client member new isNew same
    obtain rfl := List.mem_singleton.mp isNew
    exact Nat.ne_of_lt (sound.backlogKnown client member) same
  backlogKnown client member := by
    change client < (server.clients ++ [({} : Peer)]).length
    rw [List.length_append, List.length_singleton]
    rcases List.mem_append.mp member with before | new
    · exact Nat.lt_succ_of_lt (sound.backlogKnown client before)
    · rw [List.mem_singleton.mp new]
      exact Nat.lt_succ_self _
  batch := sound.batch
  listed := sound.listed
  queued event member isListen := List.append_ne_nil_of_left_ne_nil
    (sound.queued event member isListen) _
  receiving := sound.receiving

theorem getElem?_change (server : EtServer) (client other : Nat) (change : Peer → Peer) :
    (server.change client change).clients[other]? =
      server.clients[other]?.map fun peer => if client = other then change peer else peer :=
  List.getElem?_modify change client server.clients other

/-- What becomes of the clients that the server is not done with does not matter to those that
it is done with. -/
theorem Served.withClients (records : server.Served served) {clients : List Peer}
    {backlog : List Nat} (unchanged : ∀ client ∈ served, clients[client]? = server.clients[client]?)
    (taken : ∀ client : Nat, (clients[client]?.map Peer.taken).getD [] =
      (server.clients[client]?.map Peer.taken).getD [])
    (unaccepted : ∀ client ∈ backlog, client ∉ served) :
    Served { server with clients, backlog } served where
  distinct := records.distinct
  grouped := records.grouped
  taken client := (records.taken client).trans (taken client).symm
  complete client member := by
    obtain ⟨peer, found, rest⟩ := records.complete client member
    exact ⟨peer, (unchanged client member).trans found, rest⟩
  unserved := records.unserved
  unaccepted := unaccepted
  closed := records.closed
  closedAgain := by
    refine records.closedAgain.trans (List.countP_congr fun client member => ?_)
    unfold ended
    rw [unchanged client member]

/-- Only who has not hung up sends or hangs up. -/
theorem Served.change (records : server.Served served) {client : Nat} {change : Peer → Peer}
    (going : server.clients[client]?.any (fun peer => peer.ending.isNone) = true)
    (taken : ∀ peer, (change peer).taken = peer.taken) :
    (server.change client change).Served served := by
  refine records.withClients (fun other member => ?_) (fun other => ?_) records.unaccepted
  · have apart : client ≠ other := by
      intro same
      obtain ⟨peer, found, -, hasEnded⟩ := records.complete other member
      rw [same, found, Option.any_some, Option.isNone_iff_eq_none] at going
      rw [going] at hasEnded
      cases hasEnded
    refine (getElem?_change server client other change).trans ?_
    simp only [if_neg apart, Option.map_id']
  · refine (congrArg (fun peer => (peer.map Peer.taken).getD [])
      (getElem?_change server client other change)).trans ?_
    rw [Option.map_map]
    congr 2
    funext peer
    rw [Function.comp_apply]
    split
    · exact taken peer
    · rfl

theorem Served.connect (records : server.Served served) :
    (server.step .connect).Served served := by
  have known : ∀ other ∈ served, other < server.clients.length := by
    intro other member
    obtain ⟨peer, found, -⟩ := records.complete other member
    exact (List.getElem?_eq_some_iff.mp found).1
  refine records.withClients (fun other member => ?_) (fun other => ?_) (fun client member => ?_)
  · exact List.getElem?_append_left (known other member)
  · rcases Nat.lt_trichotomy other server.clients.length with before | rfl | behind
    · rw [List.getElem?_append_left before]
    · rw [List.getElem?_concat_length, List.getElem?_eq_none (Nat.le_refl _)]
      rfl
    · rw [List.getElem?_eq_none (Nat.le_of_lt behind), List.getElem?_eq_none]
      rw [List.length_append, List.length_singleton]
      exact behind
  · rcases List.mem_append.mp member with before | new
    · exact records.unaccepted client before
    · intro done
      exact Nat.ne_of_lt (known client done) (List.mem_singleton.mp new)

/-! ### The batch -/

theorem Sound.moveTo (sound : server.Sound) {place : EtPlace}
    (batch : (place.sockfd.toList ++ place.events.map EtEvent.fd).Nodup)
    (listed : ∀ event ∈ place.events, (server.descriptors.epoll event.fd).isSome = true)
    (queued : ∀ event ∈ place.events, event.fd = server.listenfd → server.backlog ≠ [])
    (receiving : ∀ sockfd ∈ place.sockfd, sockfd ≠ server.listenfd ∧
      (server.descriptors.isOpen sockfd = true →
        (server.descriptors.epoll sockfd).isSome = true)) :
    Sound { server with place } :=
  { sound with batch, listed, queued, receiving }

theorem Served.moveTo (records : server.Served served) {place : EtPlace}
    (idle : server.place.sockfd = none) (stays : place.sockfd = none) :
    Served { server with place } served where
  distinct := records.distinct
  grouped := by
    have grouped := records.grouped
    unfold current at grouped ⊢
    rw [idle] at grouped
    rw [stays]
    exact grouped
  taken := records.taken
  complete := records.complete
  unserved := records.unserved
  unaccepted := records.unaccepted
  closed := records.closed
  closedAgain := by
    have closedAgain := records.closedAgain
    unfold stale at closedAgain ⊢
    rw [idle] at closedAgain
    rw [stays]
    exact closedAgain

/-- Whoever has a line of output has been served or is being served. -/
theorem Served.output_client (records : server.Served served) {got : Got}
    (member : got ∈ server.output) : got.client ∈ served ++ server.current.toList := by
  rw [records.grouped] at member
  obtain ⟨client, here, line⟩ := List.mem_flatMap.mp member
  obtain rfl : got.client = client := of_decide_eq_true (List.mem_filter.mp line).2
  exact here

theorem Served.outputOf_eq_nil (records : server.Served served) {client : Nat}
    (unheard : client ∉ served ++ server.current.toList) : server.outputOf client = [] := by
  refine List.filter_eq_nil_iff.mpr fun got member same => unheard ?_
  rw [← of_decide_eq_true same]
  exact records.output_client member

/-- The server begins with a client of whom it has heard nothing. -/
theorem Served.begin (records : server.Served served) (idle : server.place.sockfd = none)
    {sockfd : Fd} {later : List EtEvent} (connected : server.Connected sockfd)
    (isOpen : server.descriptors.isOpen sockfd = true) :
    Served { server with place := .receiving sockfd later } served where
  distinct := records.distinct
  grouped := by
    have noneBefore := current_eq_none idle
    have now : current { server with place := .receiving sockfd later } =
        some (server.clientOf sockfd) := current_receiving rfl isOpen
    have unheard : server.clientOf sockfd ∉ served ++ server.current.toList := by
      rw [noneBefore, Option.toList_none, List.append_nil]
      exact records.unserved sockfd connected
    have grouped := records.grouped
    have silent := records.outputOf_eq_nil unheard
    rw [now, Option.toList_some, List.flatMap_append, List.flatMap_singleton]
    rw [noneBefore, Option.toList_none, List.append_nil] at grouped
    refine grouped.trans ?_
    change _ = served.flatMap server.outputOf ++ server.outputOf (server.clientOf sockfd)
    rw [silent, List.append_nil]
  taken := records.taken
  complete := records.complete
  unserved := records.unserved
  unaccepted := records.unaccepted
  closed := records.closed
  closedAgain := by
    have closedAgain := records.closedAgain
    have now : stale { server with place := .receiving sockfd later } = false := by
      rw [stale_receiving rfl, isOpen]
      rfl
    rw [now]
    rwa [stale_eq_false idle] at closedAgain

theorem Sound.epollWait (sound : server.Sound) {batch : List EtEvent}
    (returns : server.Returns (.epollWait batch)) : (server.step (.epollWait batch)).Sound := by
  obtain ⟨-, -, -, distinct, reports⟩ := returns
  refine sound.moveTo distinct (fun event member => (reports event member).1) ?_
    (fun sockfd member => by cases member)
  intro event member isListen
  have readable := (reports event member).2
  unfold EtServer.readable at readable
  rw [if_pos isListen] at readable
  exact of_decide_eq_true readable

/-! ### Accepting -/

section Accept

variable {fd : Fd} {client : Nat} {backlog : List Nat} {later : List EtEvent}

theorem accept_some (waiting : server.backlog = client :: backlog) :
    server.accept (some fd) later =
      { server with
        descriptors := (server.descriptors.opened fd).epollAdd fd (addfdEvents 1)
        clientOf := Function.update server.clientOf fd client
        backlog
        place := .handling later } := by
  unfold accept
  rw [waiting]

/-- The connections after `accept`: the new one, and those there were. -/
theorem connected_accept {place : EtPlace} {other : Fd}
    (connected : Connected { server with
      descriptors := (server.descriptors.opened fd).epollAdd fd (addfdEvents 1)
      clientOf := Function.update server.clientOf fd client
      backlog
      place } other) : other = fd ∨ other ≠ fd ∧ server.Connected other := by
  by_cases new : other = fd
  · exact .inl new
  · obtain ⟨registered, apart⟩ := connected
    rw [Descriptors.epoll_epollAdd, if_neg new] at registered
    exact .inr ⟨new, registered, apart⟩

theorem Sound.accept (sound : server.Sound) (waiting : server.backlog = client :: backlog)
    (fresh : server.descriptors.isOpen fd = false) {place : EtPlace}
    (idle : place.sockfd = none) (batch : (place.events.map EtEvent.fd).Nodup)
    (listed : ∀ event ∈ place.events, (server.descriptors.epoll event.fd).isSome = true)
    (accepted : ∀ event ∈ place.events, event.fd ≠ server.listenfd) :
    Sound { server with
      descriptors := (server.descriptors.opened fd).epollAdd fd (addfdEvents 1)
      clientOf := Function.update server.clientOf fd client
      backlog
      place } := by
  have distinct := sound.backlogDistinct
  have known := sound.backlogKnown
  rw [waiting] at distinct known
  obtain ⟨notAgain, distinctRest⟩ := List.nodup_cons.mp distinct
  have others : ∀ other, server.Connected other → server.clientOf other ≠ client := by
    intro other connected same
    refine (sound.connected other connected).2 ?_
    rw [same, waiting]
    exact List.mem_cons_self
  have unused : server.listenfd ≠ fd := by
    rintro rfl
    obtain ⟨events, registered⟩ := Option.isSome_iff_exists.mp sound.listening
    rw [(sound.levelTriggered _ events registered).2] at fresh
    cases fresh
  constructor
  · rw [Descriptors.epoll_epollAdd, if_neg unused]
    exact sound.listening
  · intro other events registered
    rw [Descriptors.epoll_epollAdd] at registered
    rw [Descriptors.isOpen_epollAdd, Descriptors.isOpen_opened]
    by_cases new : other = fd
    · rw [if_pos new] at registered
      exact ⟨(Option.some.inj registered).symm, .inl new⟩
    · rw [if_neg new] at registered
      exact (sound.levelTriggered other events registered).imp_right .inr
  · intro other connected
    dsimp only
    rcases connected_accept connected with rfl | ⟨new, before⟩
    · rw [Function.update_self]
      exact ⟨known client List.mem_cons_self, notAgain⟩
    · rw [Function.update_of_ne new]
      obtain ⟨inside, outside⟩ := sound.connected other before
      rw [waiting] at outside
      exact ⟨inside, fun member => outside (List.mem_cons_of_mem _ member)⟩
  · intro first second connected connected' same
    dsimp only at same
    rcases connected_accept connected with rfl | ⟨new, before⟩
    · rcases connected_accept connected' with rfl | ⟨new', before'⟩
      · rfl
      · rw [Function.update_self, Function.update_of_ne new'] at same
        exact absurd same.symm (others second before')
    · rcases connected_accept connected' with rfl | ⟨new', before'⟩
      · rw [Function.update_self, Function.update_of_ne new] at same
        exact absurd same (others first before)
      · rw [Function.update_of_ne new, Function.update_of_ne new'] at same
        exact sound.apart first second before before' same
  · exact distinctRest
  · exact fun other member => known other (List.mem_cons_of_mem _ member)
  · dsimp only
    rw [idle]
    exact batch
  · intro event member
    rw [Descriptors.epoll_epollAdd]
    split
    · rfl
    · exact listed event member
  · exact fun event member isListen => absurd isListen (accepted event member)
  · intro sockfd member
    dsimp only at member
    rw [idle] at member
    cases member

theorem Served.accept (records : server.Served served) (idle : server.place.sockfd = none)
    (waiting : server.backlog = client :: backlog) :
    Served { server with
      descriptors := (server.descriptors.opened fd).epollAdd fd (addfdEvents 1)
      clientOf := Function.update server.clientOf fd client
      backlog
      place := .handling later } served := by
  have unaccepted := records.unaccepted
  rw [waiting] at unaccepted
  have moved : Served { server with place := .handling later } served := records.moveTo idle rfl
  constructor
  · exact moved.distinct
  · exact moved.grouped
  · exact moved.taken
  · exact moved.complete
  · intro other connected
    dsimp only
    rcases connected_accept connected with rfl | ⟨new, before⟩
    · rw [Function.update_self]
      exact unaccepted client List.mem_cons_self
    · rw [Function.update_of_ne new]
      exact records.unserved other before
  · exact fun other member => unaccepted other (List.mem_cons_of_mem _ member)
  · exact moved.closed
  · exact moved.closedAgain

end Accept

theorem Sound.next (sound : server.Sound) {connfd : Option Fd}
    (returns : server.Returns (.next connfd)) : (server.step (.next connfd)).Sound := by
  obtain ⟨handling, -, fresh⟩ := returns
  have batch := sound.batch
  have listed := sound.listed
  have queued := sound.queued
  change (server.next connfd).Sound
  unfold EtServer.next
  cases place : server.place with
  | waiting =>
      rw [place] at handling
      cases handling
  | receiving sockfd later =>
      rw [place] at handling
      cases handling
  | handling events =>
      rw [place] at batch listed queued
      cases events with
      | nil => exact sound.moveTo List.nodup_nil nofun nofun nofun
      | cons event later =>
          obtain ⟨notAgain, rest⟩ := List.nodup_cons.mp batch
          have laterListed : ∀ event ∈ later, (server.descriptors.epoll event.fd).isSome = true :=
            fun other member => listed other (List.mem_cons_of_mem _ member)
          have laterQueued : ∀ event ∈ later, event.fd = server.listenfd →
              server.backlog ≠ [] := fun other member =>
            queued other (List.mem_cons_of_mem _ member)
          have moved : Sound { server with place := .handling later } :=
            sound.moveTo rest laterListed laterQueued nofun
          dsimp only
          split
          · rename_i isListen
            cases connfd with
            | none => exact moved
            | some fd =>
                cases waiting : server.backlog with
                | nil => exact absurd waiting (queued event List.mem_cons_self isListen)
                | cons client backlog =>
                    rw [accept_some waiting]
                    refine sound.accept waiting (fresh fd rfl) rfl rest laterListed ?_
                    intro other member same
                    refine notAgain (List.mem_map.mpr ⟨other, member, ?_⟩)
                    rw [same, isListen]
          · rename_i isConnection
            split
            · refine sound.moveTo batch laterListed laterQueued ?_
              intro sockfd isSockfd
              obtain rfl : event.fd = sockfd := Option.some.inj isSockfd
              exact ⟨isConnection, fun _ => listed event List.mem_cons_self⟩
            · exact moved

theorem Served.next (records : server.Served served) (sound : server.Sound) {connfd : Option Fd}
    (returns : server.Returns (.next connfd)) : (server.step (.next connfd)).Served served := by
  obtain ⟨handling, -, -⟩ := returns
  have listed := sound.listed
  have queued := sound.queued
  change (server.next connfd).Served served
  unfold EtServer.next
  cases place : server.place with
  | waiting =>
      rw [place] at handling
      cases handling
  | receiving sockfd later =>
      rw [place] at handling
      cases handling
  | handling events =>
      have idle : server.place.sockfd = none := by
        rw [place]
        rfl
      rw [place] at listed queued
      cases events with
      | nil => exact records.moveTo idle rfl
      | cons event later =>
          have moved : Served { server with place := .handling later } served :=
            records.moveTo idle rfl
          dsimp only
          split
          · rename_i isListen
            cases connfd with
            | none => exact moved
            | some fd =>
                cases waiting : server.backlog with
                | nil => exact absurd waiting (queued event List.mem_cons_self isListen)
                | cons client backlog =>
                    rw [accept_some waiting]
                    exact records.accept idle waiting
          · rename_i isConnection
            split
            · have connected : server.Connected event.fd :=
                ⟨listed event List.mem_cons_self, isConnection⟩
              obtain ⟨events, registered⟩ := Option.isSome_iff_exists.mp connected.1
              exact records.begin idle connected (sound.levelTriggered _ events registered).2
            · exact moved

/-! ### Receiving -/

section Receive

variable {sockfd : Fd} {later : List EtEvent} {peer : Peer}

theorem filter_append_line (output : List Got) (line : Got) (client : Nat) :
    (output ++ [line]).filter (fun got => got.client = client) =
      output.filter (fun got => got.client = client) ++
        if line.client = client then [line] else [] := by
  rw [List.filter_append]
  by_cases same : line.client = client <;> simp [same]

/-- Bytes of the client being served go behind all that were received before. -/
theorem Served.take (records : server.Served served) (sound : server.Sound)
    (receiving : server.place = .receiving sockfd later)
    (isOpen : server.descriptors.isOpen sockfd = true)
    (found : server.clients[server.clientOf sockfd]? = some peer) (count : Nat) :
    Served
      { server.change (server.clientOf sockfd) fun peer =>
          { peer with
            taken := peer.taken ++ peer.waiting.take count
            waiting := peer.waiting.drop count } with
        output := server.output ++ [⟨server.clientOf sockfd, peer.waiting.take count⟩] }
      served := by
  have unserved := records.unserved sockfd
    (sound.current_connected (by rw [receiving]; rfl) isOpen)
  have current := current_receiving receiving isOpen
  have kept : ∀ client, server.clientOf sockfd ≠ client →
      (server.change (server.clientOf sockfd) fun peer =>
        { peer with
          taken := peer.taken ++ peer.waiting.take count
          waiting := peer.waiting.drop count }).clients[client]? = server.clients[client]? := by
    intro client apart
    refine (getElem?_change server _ client _).trans ?_
    simp only [if_neg apart, Option.map_id']
  have apart : ∀ client ∈ served, server.clientOf sockfd ≠ client :=
    fun client member same => unserved (same ▸ member)
  have grouped := records.grouped
  rw [current, Option.toList_some, List.flatMap_append, List.flatMap_singleton] at grouped
  constructor
  · exact records.distinct
  · change _ = (served ++ server.current.toList).flatMap _
    rw [current, Option.toList_some, List.flatMap_append, List.flatMap_singleton]
    unfold outputOf
    simp only [filter_append_line, if_true]
    rw [← List.append_assoc]
    congr 1
    refine grouped.trans (congrArg (· ++ _) (List.flatMap_congr fun client member => ?_))
    rw [if_neg (apart client member), List.append_nil]
    rfl
  · intro client
    unfold heard outputOf
    simp only [filter_append_line]
    by_cases same : server.clientOf sockfd = client
    · subst same
      have taken := records.taken (server.clientOf sockfd)
      unfold heard outputOf at taken
      rw [found] at taken
      rw [if_pos rfl, List.flatMap_append, taken, List.flatMap_singleton]
      change _ = ((server.change _ _).clients[server.clientOf sockfd]?.map Peer.taken).getD []
      rw [getElem?_change, found]
      simp only [if_true, Option.map_some, Option.getD_some]
    · rw [if_neg same, List.append_nil, kept client same]
      exact records.taken client
  · intro client member
    obtain ⟨peer, foundThen, rest⟩ := records.complete client member
    exact ⟨peer, (kept client (apart client member)).trans foundThen, rest⟩
  · exact records.unserved
  · exact records.unaccepted
  · exact records.closed
  · refine records.closedAgain.trans (List.countP_congr fun client member => ?_)
    unfold ended
    rw [← kept client (apart client member)]

theorem Sound.take (sound : server.Sound) (client : Nat) (change : Peer → Peer)
    (output : List Got) : Sound { server.change client change with output } :=
  let changed := sound.change client change
  ⟨changed.listening, changed.levelTriggered, changed.connected, changed.apart,
    changed.backlogDistinct, changed.backlogKnown, changed.batch, changed.listed, changed.queued,
    changed.receiving⟩

/-- The connections after `close`: those of the other descriptors. -/
theorem connected_close {place : EtPlace} (isOpen : server.descriptors.isOpen sockfd = true)
    {other : Fd} (connected : Connected { server with
      descriptors := server.descriptors.close sockfd
      place } other) : other ≠ sockfd ∧ server.Connected other := by
  obtain ⟨registered, apart⟩ := connected
  rw [Descriptors.epoll_close isOpen] at registered
  by_cases same : other = sockfd
  · rw [if_pos same] at registered
    cases registered
  · rw [if_neg same] at registered
    exact ⟨same, registered, apart⟩

theorem Sound.close (sound : server.Sound) (receiving : server.place = .receiving sockfd later)
    (isOpen : server.descriptors.isOpen sockfd = true) {place : EtPlace}
    (continues : place = .receiving sockfd later ∨ place = .handling later) :
    Sound { server with descriptors := server.descriptors.close sockfd, place } := by
  have batch := sound.batch
  have listed := sound.listed
  have queued := sound.queued
  have connection := sound.current_connected (by rw [receiving]; rfl) isOpen
  rw [receiving] at batch listed queued
  have notAgain : sockfd ∉ later.map EtEvent.fd := (List.nodup_cons.mp batch).1
  have sameEvents : place.events = later := by
    rcases continues with rfl | rfl
    · rfl
    · rfl
  have epoll := fun fd => Descriptors.epoll_close isOpen fd
  constructor
  · rw [epoll, if_neg connection.2.symm]
    exact sound.listening
  · intro fd events registered
    rw [epoll] at registered
    by_cases same : fd = sockfd
    · rw [if_pos same] at registered
      cases registered
    · rw [if_neg same] at registered
      refine (sound.levelTriggered fd events registered).imp_right fun before => ?_
      exact (Descriptors.isOpen_close sockfd fd).mpr ⟨same, before⟩
  · exact fun fd connected => sound.connected fd (connected_close isOpen connected).2
  · exact fun fd other connected connected' =>
      sound.apart fd other (connected_close isOpen connected).2 (connected_close isOpen connected').2
  · exact sound.backlogDistinct
  · exact sound.backlogKnown
  · dsimp only
    rcases continues with rfl | rfl
    · exact batch
    · exact (List.nodup_cons.mp batch).2
  · intro event member
    dsimp only at member
    rw [sameEvents] at member
    have away : event.fd ≠ sockfd := fun same => notAgain (same ▸ List.mem_map_of_mem member)
    rw [epoll, if_neg away]
    exact listed event member
  · intro event member
    dsimp only at member
    rw [sameEvents] at member
    exact queued event member
  · intro fd member
    dsimp only at member
    rcases continues with rfl | rfl
    · obtain rfl : sockfd = fd := Option.some.inj member
      refine ⟨connection.2, fun still => ?_⟩
      exact absurd rfl ((Descriptors.isOpen_close sockfd sockfd).mp still).1
    · cases member

/-- A client at its end has been served. -/
theorem Served.close (records : server.Served served) (sound : server.Sound)
    (receiving : server.place = .receiving sockfd later)
    (isOpen : server.descriptors.isOpen sockfd = true)
    (found : server.clients[server.clientOf sockfd]? = some peer) (empty : peer.waiting = [])
    {ending : Ending} (hasEnded : peer.ending = some ending) {place : EtPlace}
    (continues : place = if ending = .endOfFile then .receiving sockfd later
      else .handling later) :
    Served { server with descriptors := server.descriptors.close sockfd, place }
      (served ++ [server.clientOf sockfd]) := by
  have connection := sound.current_connected (by rw [receiving]; rfl) isOpen
  have unserved := records.unserved sockfd connection
  have grouped := records.grouped
  rw [current_receiving receiving isOpen, Option.toList_some] at grouped
  have isClosed : (server.descriptors.close sockfd).isOpen sockfd = false := by
    refine Bool.eq_false_iff.mpr fun still => ?_
    exact absurd rfl ((Descriptors.isOpen_close sockfd sockfd).mp still).1
  have nothing : current { server with descriptors := server.descriptors.close sockfd, place } =
      none := by
    cases ending with
    | endOfFile => exact current_stale continues isClosed
    | error => exact current_eq_none (by dsimp only; rw [continues]; rfl)
  have stillOpen : server.stale = false := by
    rw [stale_receiving receiving, isOpen]
    rfl
  have closedAgain := records.closedAgain
  rw [stillOpen, Bool.toNat_false, Nat.add_zero] at closedAgain
  constructor
  · refine List.nodup_append.mpr ⟨records.distinct, List.pairwise_singleton _ _, ?_⟩
    intro client member other isLast same
    rw [List.mem_singleton.mp isLast] at same
    exact unserved (same ▸ member)
  · rw [nothing, Option.toList_none, List.append_nil]
    exact grouped
  · exact records.taken
  · intro client member
    rcases List.mem_append.mp member with before | isLast
    · exact records.complete client before
    · rw [List.mem_singleton.mp isLast]
      exact ⟨peer, found, empty, by rw [hasEnded]; rfl⟩
  · intro other connected member
    obtain ⟨apart, before⟩ := connected_close isOpen connected
    rcases List.mem_append.mp member with earlier | isLast
    · exact records.unserved other before earlier
    · exact apart (sound.apart other sockfd before connection (List.mem_singleton.mp isLast))
  · intro client member done
    rcases List.mem_append.mp done with earlier | isLast
    · exact records.unaccepted client member earlier
    · obtain rfl := List.mem_singleton.mp isLast
      exact (sound.connected sockfd connection).2 member
  · change (server.descriptors.closes ++ [(sockfd, server.descriptors.isOpen sockfd)]).countP _ = _
    rw [isOpen, List.countP_append, records.closed, List.length_append]
    rfl
  · change (server.descriptors.closes ++ [(sockfd, server.descriptors.isOpen sockfd)]).countP _ +
      _ = (served ++ [server.clientOf sockfd]).countP (server.ended .endOfFile)
    have last : server.ended .endOfFile (server.clientOf sockfd) =
        decide (ending = .endOfFile) := by
      unfold ended
      rw [found, Option.any_some, hasEnded]
      simp
    rw [isOpen, List.countP_append, List.countP_append, closedAgain, List.countP_singleton,
      List.countP_singleton, last]
    cases ending with
    | endOfFile =>
        rw [show stale _ = true from (stale_receiving continues).trans (by rw [isClosed]; rfl)]
        rfl
    | error =>
        rw [show stale _ = false from stale_eq_false (by dsimp only; rw [continues]; rfl)]
        rfl

/-- `recv` fails for the descriptor that was closed, which is then closed again. -/
theorem Sound.closeAgain (sound : server.Sound) (receiving : server.place = .receiving sockfd later)
    (isClosed : server.descriptors.isOpen sockfd = false) :
    Sound { server with
      descriptors := server.descriptors.close sockfd
      place := .handling later } := by
  have batch := sound.batch
  have listed := sound.listed
  have queued := sound.queued
  rw [receiving] at batch listed queued
  have moved : Sound { server with place := .handling later } :=
    sound.moveTo (List.nodup_cons.mp batch).2 listed queued nofun
  rw [Descriptors.close_closed isClosed]
  exact ⟨moved.listening, moved.levelTriggered, moved.connected, moved.apart,
    moved.backlogDistinct, moved.backlogKnown, moved.batch, moved.listed, moved.queued,
    moved.receiving⟩

theorem Served.closeAgain (records : server.Served served)
    (receiving : server.place = .receiving sockfd later)
    (isClosed : server.descriptors.isOpen sockfd = false) :
    Served { server with
      descriptors := server.descriptors.close sockfd
      place := .handling later } served := by
  have grouped := records.grouped
  have closedAgain := records.closedAgain
  rw [current_stale receiving isClosed] at grouped
  rw [stale_receiving receiving, isClosed] at closedAgain
  rw [Descriptors.close_closed isClosed]
  constructor
  · exact records.distinct
  · exact grouped
  · exact records.taken
  · exact records.complete
  · exact records.unserved
  · exact records.unaccepted
  · exact (List.countP_append ..).trans records.closed
  · exact (congrArg (· + 0) (List.countP_append ..)).trans closedAgain

theorem recv_keeps (sound : server.Sound) (records : server.Served served) {count : Nat}
    (returns : server.Returns (.recv count)) :
    (server.step (.recv count)).Sound ∧
      ∃ served', (server.step (.recv count)).Served served' := by
  change (server.recv count).Sound ∧ ∃ served', (server.recv count).Served served'
  unfold Returns at returns
  unfold EtServer.recv
  cases receiving : server.place with
  | waiting =>
      rw [receiving] at returns
      cases returns
  | handling events =>
      rw [receiving] at returns
      cases returns
  | receiving sockfd later =>
      rw [receiving] at returns
      change (!server.descriptors.isOpen sockfd ||
        server.clients[server.clientOf sockfd]?.any fun peer => peer.gives count) = true at returns
      dsimp only
      by_cases isOpen : server.descriptors.isOpen sockfd = true
      · rw [isOpen, Bool.not_true, Bool.false_or] at returns
        cases found : server.clients[server.clientOf sockfd]? with
        | none =>
            rw [found] at returns
            cases returns
        | some peer =>
            rw [found, Option.any_some] at returns
            rw [if_pos isOpen]
            dsimp only
            unfold receive
            unfold Peer.gives at returns
            by_cases data : peer.waiting ≠ []
            · rw [if_pos data]
              exact ⟨sound.take _ _ _, served, records.take sound receiving isOpen found count⟩
            · have empty := not_not.mp data
              rw [if_neg data] at returns ⊢
              cases hasEnded : peer.ending with
              | none =>
                  rw [hasEnded] at returns
                  cases returns
              | some ending =>
                  cases ending with
                  | endOfFile =>
                      exact ⟨sound.close receiving isOpen (.inl receiving), _,
                        records.close sound receiving isOpen found empty hasEnded
                          (receiving.trans (if_pos rfl).symm)⟩
                  | error =>
                      exact ⟨sound.close receiving isOpen (.inr rfl), _,
                        records.close sound receiving isOpen found empty hasEnded
                          (if_neg nofun).symm⟩
      · have isClosed := Bool.eq_false_iff.mpr isOpen
        rw [if_neg isOpen]
        exact ⟨sound.closeAgain receiving isClosed, served,
          records.closeAgain receiving isClosed⟩

end Receive

/-! ## Whole runs -/

/-- A step keeps the invariant, and takes at most one client to those that were served. -/
theorem step_keeps (sound : server.Sound) (records : server.Served served) (op : EtStep)
    (allowed : server.Allowed op) :
    (server.step op).Sound ∧ ∃ served', (server.step op).Served served' := by
  cases op with
  | connect => exact ⟨sound.connect, served, records.connect⟩
  | send client bytes =>
      exact ⟨sound.change client _, served, records.change allowed fun _ => rfl⟩
  | hangUp client ending =>
      exact ⟨sound.change client _, served, records.change allowed fun _ => rfl⟩
  | epollWait batch =>
      refine ⟨sound.epollWait allowed, served, records.moveTo ?_ rfl⟩
      rw [allowed.1]
      rfl
  | next connfd => exact ⟨sound.next allowed, served, records.next sound allowed⟩
  | recv count => exact recv_keeps sound records allowed

theorem Served.serial (records : server.Served served) (sound : server.Sound) :
    server.Serial served where
  distinct := by
    refine List.nodup_append.mpr ⟨records.distinct, ?_, ?_⟩
    · cases server.current with
      | none => exact List.nodup_nil
      | some client => exact List.pairwise_singleton _ _
    · intro client member other isCurrent same
      obtain ⟨sockfd, connected, rfl⟩ := sound.of_current (Option.mem_toList.mp isCurrent)
      exact records.unserved sockfd connected (same ▸ member)
  grouped := records.grouped
  heard client peer found := by
    rw [records.taken client, found]
    exact List.prefix_append _ _
  complete client member := by
    obtain ⟨peer, found, empty, hasEnded⟩ := records.complete client member
    refine ⟨peer, found, ?_, hasEnded⟩
    rw [records.taken client, found, Peer.stream, empty, List.append_nil]
    rfl
  closed := records.closed
  closedAgain := records.closedAgain

/-- In every run the server serves its clients one after another: its output is that of the
clients it is done with, each in one piece and complete, and of the one it is receiving from. -/
theorem etServer_serial (listenfd : Fd) {own : Fd → Bool} (isOwn : own listenfd = true)
    {steps : List EtStep} (run : AllowedRun Allowed step (start listenfd own) steps) :
    ∃ served, Serial (steps.foldl step (start listenfd own)) served := by
  have keeps : ∀ (server : EtServer) op, (server.Sound ∧ ∃ served, server.Served served) →
      server.Allowed op → (server.step op).Sound ∧ ∃ served, (server.step op).Served served := by
    intro server op invariant allowed
    obtain ⟨sound, served, records⟩ := invariant
    exact step_keeps sound records op allowed
  obtain ⟨sound, served, records⟩ := throughout_iff.mp
    (run.throughout keeps ⟨start_sound listenfd isOwn, [], start_served listenfd own⟩) steps
      List.prefix_rfl
  exact ⟨served, records.serial sound⟩

/-- The second client connects and writes while the server waits for the first one's end, and
gets the first one's descriptor after that. -/
def twoClients : List EtStep :=
  [.connect, .epollWait [⟨3, EPOLLIN⟩], .next (some 5), .next none, .send 0 [104, 105], .connect,
    .epollWait [⟨5, EPOLLIN⟩, ⟨3, EPOLLIN⟩], .next none, .send 1 [33], .recv 1, .recv 1,
    .hangUp 0 .endOfFile, .recv 0, .recv 0, .next (some 5), .next none, .epollWait [⟨5, EPOLLIN⟩],
    .next none, .recv 1]

theorem etServer_serial_twoClients :
    ∃ served, Serial (twoClients.foldl step (start 3 fun fd => decide (0 ≤ fd ∧ fd ≤ 4))) served :=
  etServer_serial 3 (by decide) (by decide)

/-! ## Who has to wait -/

/-- The server has stayed with `client`: it has accepted nobody, received from nobody else and
closed nothing. -/
structure StaysWith (client : Nat) (server later : EtServer) : Prop where
  place : later.place = server.place
  descriptors : later.descriptors = server.descriptors
  clientOf : later.clientOf = server.clientOf
  backlog : server.backlog <+: later.backlog
  output : ∃ lines, later.output = server.output ++ lines ∧ ∀ line ∈ lines, line.client = client

theorem StaysWith.refl (client : Nat) (server : EtServer) : StaysWith client server server :=
  ⟨rfl, rfl, rfl, List.prefix_rfl, [], (List.append_nil _).symm, nofun⟩

theorem StaysWith.trans {client : Nat} {first second third : EtServer}
    (before : StaysWith client first second) (after : StaysWith client second third) :
    StaysWith client first third where
  place := after.place.trans before.place
  descriptors := after.descriptors.trans before.descriptors
  clientOf := after.clientOf.trans before.clientOf
  backlog := before.backlog.trans after.backlog
  output := by
    obtain ⟨lines, same, ofClient⟩ := before.output
    obtain ⟨more, same', ofClient'⟩ := after.output
    refine ⟨lines ++ more, by rw [same', same, List.append_assoc], fun line member => ?_⟩
    exact (List.mem_append.mp member).elim (ofClient line) (ofClient' line)

/-- The client being served, which has not hung up. -/
def Serves (server : EtServer) (client : Nat) : Prop :=
  server.current = some client ∧
    server.clients[client]?.any (fun peer => peer.ending.isNone) = true

theorem StaysWith.current {client other : Nat} {server later : EtServer}
    (stays : StaysWith other server later) (serves : server.current = some client) :
    later.current = some client := by
  unfold EtServer.current at serves ⊢
  rw [stays.place, stays.descriptors, stays.clientOf]
  exact serves

theorem going_change {client other : Nat} {change : Peer → Peer}
    (going : server.clients[client]?.any (fun peer => peer.ending.isNone) = true)
    (kept : client = other → ∀ peer : Peer, (change peer).ending = peer.ending) :
    (server.change other change).clients[client]?.any (fun peer => peer.ending.isNone) = true := by
  cases found : server.clients[client]? with
  | none =>
      rw [found] at going
      cases going
  | some peer =>
      rw [found, Option.any_some] at going
      rw [getElem?_change, found, Option.map_some, Option.any_some]
      by_cases same : other = client
      · rw [if_pos same, kept same.symm]
        exact going
      · rw [if_neg same]
        exact going

/-- What the clients do among themselves leaves the server where it is. -/
theorem StaysWith.withClients {client : Nat} {clients : List Peer} {backlog : List Nat}
    (queued : server.backlog <+: backlog) :
    StaysWith client server { server with clients, backlog } :=
  ⟨rfl, rfl, rfl, queued, [], (List.append_nil _).symm, nofun⟩

/-- The `recv` loop goes on with its client, whether there is anything to receive or not. -/
theorem receive_staysWith {sockfd : Fd} {later : List EtEvent} {peer : Peer}
    (current : server.current = some (server.clientOf sockfd))
    (going : server.clients[server.clientOf sockfd]?.any (fun peer => peer.ending.isNone) = true)
    (found : server.clients[server.clientOf sockfd]? = some peer) (count : Nat) :
    StaysWith (server.clientOf sockfd) server (server.receive sockfd later count peer) ∧
      (server.receive sockfd later count peer).Serves (server.clientOf sockfd) := by
  have unended : peer.ending = none := by
    rw [found, Option.any_some, Option.isNone_iff_eq_none] at going
    exact going
  unfold receive
  by_cases data : peer.waiting ≠ []
  · rw [if_pos data]
    have same : StaysWith (server.clientOf sockfd) server
        { server.change (server.clientOf sockfd) fun peer =>
            { peer with
              taken := peer.taken ++ peer.waiting.take count
              waiting := peer.waiting.drop count } with
          output := server.output ++ [⟨server.clientOf sockfd, peer.waiting.take count⟩] } :=
      ⟨rfl, rfl, rfl, List.prefix_rfl, _, rfl, fun line member => by
        rw [List.mem_singleton.mp member]⟩
    exact ⟨same, same.current current, going_change going fun _ _ => rfl⟩
  · rw [if_neg data, unended]
    exact ⟨.refl _ server, current, going⟩

/-- Whatever happens but the client's end leaves the server with it. -/
theorem step_staysWith {client : Nat} (serves : server.Serves client) {op : EtStep}
    (allowed : server.Allowed op) (stays : ∀ ending, op ≠ .hangUp client ending) :
    StaysWith client server (server.step op) ∧ (server.step op).Serves client := by
  obtain ⟨current, going⟩ := serves
  obtain ⟨sockfd, filtered, isClient⟩ := Option.map_eq_some_iff.mp current
  obtain ⟨isSockfd, isOpen⟩ := Option.filter_eq_some_iff.mp filtered
  cases found : server.clients[client]? with
  | none =>
      rw [found] at going
      cases going
  | some peer =>
      cases op with
      | connect =>
          have same : StaysWith client server (server.step .connect) :=
            .withClients (List.prefix_append _ _)
          refine ⟨same, same.current current, ?_⟩
          change (server.clients ++ [({} : Peer)])[client]?.any _ = true
          rw [List.getElem?_append_left (List.getElem?_eq_some_iff.mp found).1]
          exact going
      | send other bytes =>
          have same : StaysWith client server (server.step (.send other bytes)) :=
            .withClients List.prefix_rfl
          exact ⟨same, same.current current, going_change going fun _ _ => rfl⟩
      | hangUp other ending =>
          have same : StaysWith client server (server.step (.hangUp other ending)) :=
            .withClients List.prefix_rfl
          have apart : client ≠ other := fun isClient => stays ending (by rw [isClient])
          exact ⟨same, same.current current,
            going_change going fun isClient => absurd isClient apart⟩
      | epollWait batch =>
          rw [allowed.1] at isSockfd
          cases isSockfd
      | next connfd =>
          have handling := allowed.1
          cases place : server.place with
          | handling events =>
              rw [place] at isSockfd
              cases isSockfd
          | waiting =>
              rw [place] at handling
              cases handling
          | receiving other later =>
              rw [place] at handling
              cases handling
      | recv count =>
          cases place : server.place with
          | receiving other later =>
              rw [place] at isSockfd
              obtain rfl : other = sockfd := Option.some.inj isSockfd
              subst isClient
              change StaysWith _ server (server.recv count) ∧ (server.recv count).Serves _
              unfold EtServer.recv
              rw [place]
              dsimp only
              rw [if_pos isOpen, found]
              exact receive_staysWith current going found count
          | waiting =>
              rw [place] at isSockfd
              cases isSockfd
          | handling events =>
              rw [place] at isSockfd
              cases isSockfd

/-- Once the server has begun with a client, and until this client hangs up, whoever else
connects, writes or hangs up is left waiting. -/
theorem etServer_staysWith {server : EtServer} {client : Nat} (serves : server.Serves client)
    {steps : List EtStep} (run : AllowedRun Allowed step server steps)
    (stays : ∀ ending, .hangUp client ending ∉ steps) :
    StaysWith client server (steps.foldl step server) := by
  have others : ∀ op ∈ steps, ∀ ending, op ≠ .hangUp client ending :=
    fun op member ending same => stays ending (same ▸ member)
  have keeps : ∀ (later : EtServer) op,
      (StaysWith client server later ∧ later.Serves client) →
      (later.Allowed op ∧ ∀ ending, op ≠ .hangUp client ending) →
      StaysWith client server (later.step op) ∧ (later.step op).Serves client := by
    intro later op invariant allowed
    obtain ⟨same, serves'⟩ := step_staysWith invariant.2 allowed.1 allowed.2
    exact ⟨invariant.1.trans same, serves'⟩
  exact (throughout_iff.mp ((run.and_mem others).throughout keeps ⟨.refl client server, serves⟩)
    steps List.prefix_rfl).1

/-- The server of `twoClients` when it has begun with the first client. -/
def begun : EtServer := (twoClients.take 8).foldl step (start 3 fun fd => decide (0 ≤ fd ∧ fd ≤ 4))

theorem etServer_staysWith_begun :
    StaysWith 0 begun
      ([.recv 1, .connect, .send 1 [33], .recv 1, .hangUp 1 .error].foldl step begun) :=
  etServer_staysWith ⟨by decide, by decide⟩ (by decide)
    (by intro ending; cases ending <;> decide)

end EtServer

end HPLinuxServer.Execution
