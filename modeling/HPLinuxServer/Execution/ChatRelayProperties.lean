import HPLinuxServer.Execution.ChatRelay
import HPLinuxServer.Refinement.Runs
import Mathlib.Data.List.Nodup

/-!
# Chat room with a process for each client: delivery

Each message is on its way to each other client at exactly one place, from its reception
to the call of `send`. That the segment still holds it at that call, and that the notices
in a pipe have an event each, is what the runs considered here are asked for.
-/

set_option autoImplicit false

namespace HPLinuxServer.Execution

open Kernel Memory Refinement

/-- What a client is sent for a message: a whole segment, cleared behind the message. -/
def frame (bytes : List UInt8) : List UInt8 :=
  bytes ++ List.replicate (ChatRoom.bufferSize - bytes.length) 0

theorem copyIn_zero_bytes {bytes : List UInt8} (fits : bytes.length ≤ ChatRoom.bufferSize) :
    ((Buffer.zero ChatRoom.bufferSize).copyIn 0 bytes).bytes = frame bytes := by
  rw [Buffer.copyIn_bytes (by omega)]
  simp [Buffer.zero, frame, List.drop_replicate]

/-- The client a message came from. -/
def senderOf (received : List (Nat × List UInt8)) (message : Nat) : Option Nat :=
  received[message]?.map Prod.fst

theorem senderOf_of_getElem? {received : List (Nat × List UInt8)} {message sender : Nat}
    {bytes : List UInt8} (found : received[message]? = some (sender, bytes)) :
    senderOf received message = some sender :=
  congrArg (Option.map Prod.fst) found

theorem senderOf_append {received : List (Nat × List UInt8)} {message sender : Nat}
    (found : senderOf received message = some sender) (more : List (Nat × List UInt8)) :
    senderOf (received ++ more) message = some sender := by
  unfold senderOf at *
  obtain ⟨entry, present, same⟩ := Option.map_eq_some_iff.mp found
  have inside := (List.getElem?_eq_some_iff.mp present).1
  rw [List.getElem?_append_left inside, present]
  exact congrArg some same

theorem senderOf_snoc {received : List (Nat × List UInt8)} {message sender child : Nat}
    {bytes : List UInt8} (found : senderOf (received ++ [(child, bytes)]) message = some sender) :
    senderOf received message = some sender ∨ sender = child ∧ received.length = message := by
  unfold senderOf at *
  rw [List.getElem?_append] at found
  split at found
  · exact .inl found
  · right
    cases behind : message - received.length with
    | zero =>
        simp only [behind, List.getElem?_cons_zero, Option.map_some, Option.some.injEq] at found
        exact ⟨found.symm, by omega⟩
    | succ more => simp [behind] at found

theorem senderOf_lt {received : List (Nat × List UInt8)} {message sender : Nat}
    (found : senderOf received message = some sender) : message < received.length := by
  obtain ⟨entry, present, -⟩ := Option.map_eq_some_iff.mp found
  exact (List.getElem?_eq_some_iff.mp present).1

namespace ChatUser

variable {user : ChatUser}

/-! ## Where a message is -/

def about (message : Nat) (notice : Notice) : Bool := notice.message = message

/-- How often a message of this user is on its way to the server. -/
def announcing (user : ChatUser) (message : Nat) : Nat :=
  (if user.place.announced? = some message then 1 else 0) +
    user.toServer.waiting.countP (about message)

/-- How often a message is on its way from the server to this user's client. -/
def arriving (user : ChatUser) (message : Nat) : Nat :=
  user.toChild.waiting.countP (about message) +
    (if user.place.carried?.any (about message) then 1 else 0)

theorem announcing_clear (waiting : user.place = .waiting) (message : Nat) :
    user.clear.announcing message = user.announcing message := by
  unfold clear announcing
  simp [waiting, ChildPlace.announced?]

theorem arriving_clear (waiting : user.place = .waiting) (message : Nat) :
    user.clear.arriving message = user.arriving message := by
  unfold clear arriving
  simp [waiting, ChildPlace.carried?]

theorem announcing_notify (idx message : Nat) :
    (user.notify idx).announcing message = user.announcing message := by
  unfold notify announcing
  cases place : user.place.announced? with
  | none => simp [place]
  | some announced =>
      simp only [Watch.arrive, List.countP_append, List.countP_singleton, ChildPlace.announced?,
        about, decide_eq_true_eq]
      grind

theorem arriving_notify (idx message : Nat) :
    (user.notify idx).arriving message = user.arriving message := by
  unfold notify arriving
  cases place : user.place with
  | received announced => simp [ChildPlace.announced?, ChildPlace.carried?]
  | waiting => simp [ChildPlace.announced?, place]
  | cleared => simp [ChildPlace.announced?, place]
  | forwarding notice => simp [ChildPlace.announced?, place]

theorem announcing_recv (cleared : user.place = .cleared) (number message : Nat)
    (bytes : Option (List UInt8)) :
    (user.recv number bytes).announcing message =
      user.announcing message + if bytes.isSome ∧ number = message then 1 else 0 := by
  unfold recv announcing
  cases bytes with
  | none => simp [cleared, ChildPlace.announced?]
  | some bytes => simp [cleared, ChildPlace.announced?, Nat.add_comm]

theorem arriving_recv (cleared : user.place = .cleared) (number message : Nat)
    (bytes : Option (List UInt8)) :
    (user.recv number bytes).arriving message = user.arriving message := by
  unfold recv arriving
  cases bytes with
  | none => simp [cleared, ChildPlace.carried?]
  | some bytes => simp [cleared, ChildPlace.carried?]

theorem announcing_takeNotice (waiting : user.place = .waiting) (message : Nat) :
    user.takeNotice.announcing message = user.announcing message := by
  unfold takeNotice announcing
  cases user.toChild.waiting.head? with
  | none => simp [waiting, ChildPlace.announced?]
  | some notice => simp [waiting, ChildPlace.announced?]

theorem arriving_takeNotice (waiting : user.place = .waiting) (message : Nat) :
    user.takeNotice.arriving message = user.arriving message := by
  unfold takeNotice arriving Watch.handled
  cases user.toChild.waiting with
  | nil => simp [waiting, ChildPlace.carried?]
  | cons notice rest =>
      simp only [waiting, ChildPlace.carried?, List.head?_cons, List.drop_one, List.tail_cons,
        List.countP_cons, Option.any_some, Option.any_none]
      rw [if_neg Bool.false_ne_true, Nat.add_zero]
      rfl

/-- The server's `recv` from the pipe of this user. -/
theorem announcing_taken {notice : Notice} {rest : List Notice}
    (waiting : user.toServer.waiting = notice :: rest) (message : Nat) :
    { user with toServer := user.toServer.handled 1 }.announcing message +
      (if about message notice then 1 else 0) = user.announcing message := by
  unfold announcing Watch.handled
  rw [waiting, List.countP_cons]
  simp only [List.drop_one, List.tail_cons]
  omega

/-- The server's `send` to the child of this user. -/
theorem arriving_sendTo (notice : Notice) (message : Nat) :
    { user with toChild := user.toChild.arrive [notice] }.arriving message =
      user.arriving message + if about message notice then 1 else 0 := by
  unfold arriving Watch.arrive
  simp only [List.countP_append, List.countP_singleton]
  omega

theorem arriving_forward {notice : Notice} (carried : user.place.carried? = some notice)
    (message : Nat) :
    { user with place := .waiting }.arriving message + (if about message notice then 1 else 0) =
      user.arriving message := by
  unfold arriving
  rw [carried]
  simp [ChildPlace.carried?]

theorem announcing_forward {notice : Notice} (carried : user.place.carried? = some notice)
    (message : Nat) : { user with place := .waiting }.announcing message =
      user.announcing message := by
  unfold announcing
  cases place : user.place with
  | forwarding other => simp [ChildPlace.announced?]
  | waiting => simp [ChildPlace.announced?]
  | cleared => simp [ChildPlace.announced?]
  | received number => exact nomatch (congrArg ChildPlace.carried? place).symm.trans carried

/-! ## What belongs to one user -/

/-- The notices around user `i` are where notices of their senders can be, and each has its
event. -/
structure Holds (received : List (Nat × List UInt8)) (i : Nat) (user : ChatUser) : Prop where
  announced : ∀ message, user.place.announced? = some message →
    senderOf received message = some i
  toServer : ∀ notice ∈ user.toServer.waiting,
    notice.client = i ∧ senderOf received notice.message = some notice.client
  toChild : ∀ notice ∈ user.toChild.waiting,
    notice.client ≠ i ∧ senderOf received notice.message = some notice.client
  carried : ∀ notice, user.place.carried? = some notice →
    notice.client ≠ i ∧ senderOf received notice.message = some notice.client
  serverMatched : user.toServer.Matched
  childMatched : user.toChild.Matched
  cleared : user.place = .cleared → user.segment = .zero ChatRoom.bufferSize

namespace Holds

variable {received : List (Nat × List UInt8)} {i : Nat}

theorem append (holds : Holds received i user) (more : List (Nat × List UInt8)) :
    Holds (received ++ more) i user where
  announced message here := senderOf_append (holds.announced message here) more
  toServer notice member :=
    ⟨(holds.toServer notice member).1, senderOf_append (holds.toServer notice member).2 more⟩
  toChild notice member :=
    ⟨(holds.toChild notice member).1, senderOf_append (holds.toChild notice member).2 more⟩
  carried notice here :=
    ⟨(holds.carried notice here).1, senderOf_append (holds.carried notice here).2 more⟩
  serverMatched := holds.serverMatched
  childMatched := holds.childMatched
  cleared := holds.cleared

theorem goTo (holds : Holds received i user) (place : ChildPlace) (segment : Buffer _)
    (announced : ∀ message, place.announced? = some message →
      senderOf received message = some i)
    (carried : place.carried? = none)
    (cleared : place = .cleared → segment = .zero ChatRoom.bufferSize) :
    Holds received i { user with place, segment } where
  announced := announced
  toServer := holds.toServer
  toChild := holds.toChild
  carried := fun _ here => nomatch carried.symm.trans here
  serverMatched := holds.serverMatched
  childMatched := holds.childMatched
  cleared := cleared

theorem clear (holds : Holds received i user) : Holds received i user.clear :=
  holds.goTo _ _ (fun _ => nofun) rfl fun _ => rfl

theorem recv (holds : Holds received i user) (bytes : Option (List UInt8)) :
    Holds (received ++ (bytes.map (Prod.mk i)).toList) i (user.recv received.length bytes) := by
  have before := holds.append (bytes.map (Prod.mk i)).toList
  cases bytes with
  | none => exact before.goTo _ _ (fun _ => nofun) rfl nofun
  | some bytes =>
      refine before.goTo _ _ (fun message here => ?_) rfl nofun
      obtain rfl : received.length = message := Option.some.inj here
      simp [senderOf]

theorem notify (holds : Holds received i user) (quiet : user.toServer.raised = false) :
    Holds received i (user.notify i) := by
  unfold ChatUser.notify
  split
  · next message here =>
      have before := holds.goTo .waiting user.segment (fun _ => nofun) rfl nofun
      refine { before with
        toServer := fun notice member => ?_
        serverMatched := holds.serverMatched.arrive quiet _ }
      rcases List.mem_append.mp member with old | new
      · exact holds.toServer notice old
      · obtain rfl := List.mem_singleton.mp new
        exact ⟨rfl, holds.announced message here⟩
  · exact holds

theorem wait (holds : Holds received i user) (raised : user.toChild.raised = true)
    (handled : user.toChild.reported = false) : Holds received i user.wait :=
  { holds with childMatched := holds.childMatched.report raised handled }

theorem takeNotice (holds : Holds received i user) (reported : user.toChild.reported = true) :
    Holds received i user.takeNotice := by
  obtain ⟨notice, rest, waiting⟩ := holds.childMatched.head reported
  have place : user.takeNotice.place = .forwarding notice := by
    simp [ChatUser.takeNotice, waiting]
  refine { holds with
    announced := fun message here => nomatch (congrArg ChildPlace.announced? place).symm.trans here
    toChild := fun other member => holds.toChild other (List.mem_of_mem_drop member)
    carried := fun other here => ?_
    childMatched := holds.childMatched.handled_one reported
    cleared := fun here => nomatch place.symm.trans here }
  obtain rfl : notice = other :=
    Option.some.inj ((congrArg ChildPlace.carried? place).symm.trans here)
  exact holds.toChild notice (waiting ▸ List.mem_cons_self)

theorem report (holds : Holds received i user) (raised : user.toServer.raised = true)
    (handled : user.toServer.reported = false) :
    Holds received i { user with toServer := user.toServer.report } :=
  { holds with serverMatched := holds.serverMatched.report raised handled }

theorem taken (holds : Holds received i user) (reported : user.toServer.reported = true) :
    Holds received i { user with toServer := user.toServer.handled 1 } :=
  { holds with
    toServer := fun notice member => holds.toServer notice (List.mem_of_mem_drop member)
    serverMatched := holds.serverMatched.handled_one reported }

theorem sendTo (holds : Holds received i user) (quiet : user.toChild.raised = false)
    {notice : Notice} (other : notice.client ≠ i)
    (known : senderOf received notice.message = some notice.client) :
    Holds received i { user with toChild := user.toChild.arrive [notice] } := by
  refine { holds with
    toChild := fun arrived member => ?_
    childMatched := holds.childMatched.arrive quiet _ }
  rcases List.mem_append.mp member with old | new
  · exact holds.toChild arrived old
  · obtain rfl := List.mem_singleton.mp new
    exact ⟨other, known⟩

end Holds

end ChatUser

/-- How often the server still has to send a notice of the message to this client's child. -/
def ServerPlace.owed (server : ServerPlace) (client message : Nat) : Nat :=
  match server with
  | .broadcasting _ notice next =>
      if ChatUser.about message notice ∧ next ≤ client then 1 else 0
  | .waiting => 0

/-- The user whose child the server sends to next. -/
def ServerPlace.target? : ServerPlace → Option Nat
  | broadcasting sender _ next => if next ≠ sender then some next else none
  | waiting => none

namespace ChatRelay

variable {relay : ChatRelay}

def isSentTo (client message : Nat) (entry : Sent) : Bool :=
  decide (entry.client = client) && decide (entry.message = message)

def SentTo (relay : ChatRelay) (client message : Nat) : Prop :=
  ∃ entry ∈ relay.sent, isSentTo client message entry = true

/-- The client's messages have been sent to all others. -/
def AllSent (relay : ChatRelay) (child : Nat) : Prop :=
  ∀ message < relay.received.length, senderOf relay.received message = some child →
    ∀ client < relay.userCount, client ≠ child → relay.SentTo client message

/-- In how many places a message of `sender` is on its way to `client`, or has arrived. -/
def places (relay : ChatRelay) (sender client message : Nat) : Nat :=
  (relay.users sender).announcing message + relay.server.owed client message +
    ((relay.users client).arriving message + relay.sent.countP (isSentTo client message))

/-- A segment is only cleared when its message has reached everybody, and a notice is only
sent into a pipe whose last event has been returned by `epoll_wait`. -/
def InTurn (relay : ChatRelay) : RelayStep → Prop
  | .clear child => relay.AllSent child
  | .notify child => (relay.users child).toServer.raised = false
  | .serverSend => ∀ next ∈ relay.server.target?, (relay.users next).toChild.raised = false
  | _ => True

structure InOrder (relay : ChatRelay) : Prop where
  users : ∀ i, ChatUser.Holds relay.received i (relay.users i)
  senders : ∀ sender message, senderOf relay.received message = some sender →
    sender < relay.userCount
  server : ∀ sender notice next, relay.server = .broadcasting sender notice next →
    notice.client = sender ∧ senderOf relay.received notice.message = some notice.client ∧
      next < relay.userCount
  sent : ∀ entry ∈ relay.sent, ∃ sender bytes,
    relay.received[entry.message]? = some (sender, bytes) ∧ entry.client < relay.userCount ∧
      entry.client ≠ sender ∧ entry.bytes = frame bytes
  once : ∀ sender client message, senderOf relay.received message = some sender →
    client < relay.userCount → client ≠ sender → relay.places sender client message = 1
  segment : ∀ sender client message bytes, relay.received[message]? = some (sender, bytes) →
    client < relay.userCount → client ≠ sender → ¬relay.SentTo client message →
      (relay.users sender).segment.bytes = frame bytes ∧ (relay.users sender).place ≠ .cleared

theorem users_setUser (i j : Nat) (user : ChatUser) :
    (relay.setUser i user).users j = if j = i then user else relay.users j :=
  Function.update_apply ..

theorem setUser_congr {β : Type} (f : ChatUser → β) {i : Nat} {user : ChatUser}
    (same : f user = f (relay.users i)) (j : Nat) :
    f ((relay.setUser i user).users j) = f (relay.users j) := by
  rw [users_setUser]
  split
  · next here =>
      subst here
      exact same
  · rfl

theorem users_sendTo (sender next i : Nat) (notice : Notice) :
    (relay.sendTo sender notice next).users i =
      if i = next ∧ next ≠ sender then
        { relay.users i with toChild := (relay.users i).toChild.arrive [notice] }
      else relay.users i := by
  unfold sendTo
  by_cases other : next ≠ sender
  · rw [if_pos other, users_setUser]
    by_cases here : i = next
    · subst here
      rw [if_pos rfl, if_pos ⟨rfl, other⟩]
    · rw [if_neg here, if_neg fun both => here both.1]
  · rw [if_neg other, if_neg fun both => other both.2]

namespace InOrder

theorem users_setUser (inOrder : InOrder relay) {i : Nat} {user : ChatUser}
    (holds : ChatUser.Holds relay.received i user) (j : Nat) :
    ChatUser.Holds relay.received j ((relay.setUser i user).users j) := by
  rw [ChatRelay.users_setUser]
  split
  · next here =>
      subst here
      exact holds
  · exact inOrder.users j

/-- While a segment is cleared, nobody still needs what was in it. -/
theorem allSent (inOrder : InOrder relay) {child : Nat}
    (cleared : (relay.users child).place = .cleared) : relay.AllSent child := by
  intro message _ sender client inside other
  obtain ⟨⟨from_, bytes⟩, found, same⟩ := Option.map_eq_some_iff.mp sender
  obtain rfl : from_ = child := same
  by_contra missing
  exact (inOrder.segment _ client message bytes found inside other missing).2 cleared

theorem setUser (inOrder : InOrder relay) {i : Nat} {user : ChatUser}
    (holds : ChatUser.Holds relay.received i user)
    (announcing : ∀ message, user.announcing message = (relay.users i).announcing message)
    (arriving : ∀ message, user.arriving message = (relay.users i).arriving message)
    (segment : relay.AllSent i ∨
      user.segment = (relay.users i).segment ∧ user.place ≠ .cleared) :
    InOrder (relay.setUser i user) where
  users := inOrder.users_setUser holds
  senders := inOrder.senders
  server := inOrder.server
  sent := inOrder.sent
  once := by
    intro sender client message from_ inside other
    have before := inOrder.once sender client message from_ inside other
    unfold places at *
    rw [setUser_congr (fun user => user.announcing message) (announcing message),
      setUser_congr (fun user => user.arriving message) (arriving message)]
    exact before
  segment := by
    intro sender client message bytes found inside other missing
    have before := inOrder.segment sender client message bytes found inside other missing
    rw [ChatRelay.users_setUser]
    split
    · next here =>
        subst here
        rcases segment with all | ⟨same, uncleared⟩
        · have from_ := senderOf_of_getElem? found
          exact absurd (all message (senderOf_lt from_) from_ client inside other) missing
        · exact ⟨same ▸ before.1, uncleared⟩
    · exact before

theorem places_fresh (inOrder : InOrder relay) (sender client : Nat) {message : Nat}
    (fresh : relay.received.length ≤ message) : relay.places sender client message = 0 := by
  have other : ∀ {number from_ : Nat}, senderOf relay.received number = some from_ →
      number ≠ message := by
    intro number from_ found
    have inside := senderOf_lt found
    omega
  have announced : (relay.users sender).place.announced? ≠ some message :=
    fun here => other ((inOrder.users sender).announced message here) rfl
  have toServer : (relay.users sender).toServer.waiting.countP (ChatUser.about message) = 0 := by
    rw [List.countP_eq_zero]
    intro notice member
    simpa [ChatUser.about] using other ((inOrder.users sender).toServer notice member).2
  have owed : relay.server.owed client message = 0 := by
    cases place : relay.server with
    | waiting => rfl
    | broadcasting from_ notice next =>
        have known := other (inOrder.server from_ notice next place).2.1
        simp [ServerPlace.owed, ChatUser.about, known]
  have toChild : (relay.users client).toChild.waiting.countP (ChatUser.about message) = 0 := by
    rw [List.countP_eq_zero]
    intro notice member
    simpa [ChatUser.about] using other ((inOrder.users client).toChild notice member).2
  have carried : (relay.users client).place.carried?.any (ChatUser.about message) = false := by
    cases here : (relay.users client).place.carried? with
    | none => rfl
    | some notice =>
        simpa [ChatUser.about] using other ((inOrder.users client).carried notice here).2
  have sent : relay.sent.countP (isSentTo client message) = 0 := by
    rw [List.countP_eq_zero]
    intro entry member
    obtain ⟨from_, bytes, found, -⟩ := inOrder.sent entry member
    have known := other (senderOf_of_getElem? found)
    simp [isSentTo, known]
  unfold places ChatUser.announcing ChatUser.arriving
  simp [announced, toServer, owed, toChild, carried, sent]

theorem recv (inOrder : InOrder relay) {child : Nat} {bytes : List UInt8}
    (inside : child < relay.userCount) (cleared : (relay.users child).place = .cleared)
    (fits : bytes.length ≤ ChatRoom.bufferSize) : InOrder (relay.recv child (some bytes)) where
  users := by
    intro i
    unfold ChatRelay.recv
    simp only [ChatRelay.users_setUser]
    split
    · next here =>
        subst here
        exact (inOrder.users i).recv (some bytes)
    · exact (inOrder.users i).append _
  senders := by
    intro sender message from_
    rcases senderOf_snoc from_ with before | ⟨same, -⟩
    · exact inOrder.senders sender message before
    · exact same ▸ inside
  server := by
    intro sender notice next place
    obtain ⟨same, known, inside⟩ := inOrder.server sender notice next place
    exact ⟨same, senderOf_append known _, inside⟩
  sent := by
    intro entry member
    obtain ⟨sender, sentBytes, found, rest⟩ := inOrder.sent entry member
    have inside := (List.getElem?_eq_some_iff.mp found).1
    exact ⟨sender, sentBytes, (List.getElem?_append_left inside).trans found, rest⟩
  once := by
    intro sender client message from_ inside other
    have announcing : ((relay.recv child (some bytes)).users sender).announcing message =
        (relay.users sender).announcing message +
          if sender = child ∧ relay.received.length = message then 1 else 0 := by
      refine (congrArg (fun user => user.announcing message) (ChatRelay.users_setUser ..)).trans ?_
      split
      · next here =>
          subst here
          simp [ChatUser.announcing_recv cleared]
      · next away => simp [away]
    have arriving : ((relay.recv child (some bytes)).users client).arriving message =
        (relay.users client).arriving message :=
      setUser_congr (fun user => user.arriving message)
        (ChatUser.arriving_recv cleared _ message (some bytes)) client
    have moved : (relay.recv child (some bytes)).places sender client message =
        relay.places sender client message +
          if sender = child ∧ relay.received.length = message then 1 else 0 := by
      unfold places
      rw [announcing, arriving]
      unfold ChatRelay.recv ChatRelay.setUser
      dsimp only
      omega
    rw [moved]
    rcases senderOf_snoc from_ with before | ⟨same, last⟩
    · have earlier := senderOf_lt before
      rw [if_neg (fun here => absurd here.2 (Nat.ne_of_gt earlier)), Nat.add_zero]
      exact inOrder.once sender client message before inside other
    · rw [inOrder.places_fresh sender client (Nat.le_of_eq last), if_pos ⟨same, last⟩]
  segment := by
    intro sender client message held found inside other missing
    have user : (relay.recv child (some bytes)).users sender =
        if sender = child then (relay.users child).recv relay.received.length (some bytes)
        else relay.users sender := ChatRelay.users_setUser ..
    rw [user]
    rcases senderOf_snoc (senderOf_of_getElem? found) with before | ⟨rfl, rfl⟩
    · have earlier := senderOf_lt before
      have old : relay.received[message]? = some (sender, held) :=
        (List.getElem?_append_left earlier).symm.trans found
      obtain ⟨same, uncleared⟩ :=
        inOrder.segment sender client message held old inside other missing
      have away : sender ≠ child := by
        rintro rfl
        exact uncleared cleared
      rw [if_neg away]
      exact ⟨same, uncleared⟩
    · obtain rfl : bytes = held := by
        simpa [ChatRelay.recv, ChatRelay.setUser] using found
      rw [if_pos rfl]
      refine ⟨?_, nofun⟩
      unfold ChatUser.recv
      simp only [(inOrder.users sender).cleared cleared]
      exact copyIn_zero_bytes fits

theorem forward (inOrder : InOrder relay) {child : Nat} {notice : Notice}
    (inside : child < relay.userCount)
    (carried : (relay.users child).place.carried? = some notice) :
    InOrder (relay.forward child) := by
  obtain ⟨other, known⟩ := (inOrder.users child).carried notice carried
  obtain ⟨⟨from_, bytes⟩, found, same⟩ := Option.map_eq_some_iff.mp known
  obtain rfl : from_ = notice.client := same
  have atChild := ChatUser.arriving_forward carried notice.message
  have once := inOrder.once _ child notice.message known inside (Ne.symm other)
  have unsent : ¬relay.SentTo child notice.message := by
    rintro ⟨entry, member, isSent⟩
    have sent : 0 < relay.sent.countP (isSentTo child notice.message) :=
      List.countP_pos_iff.mpr ⟨entry, member, isSent⟩
    unfold places at once
    simp only [ChatUser.about, decide_true, if_true] at atChild
    omega
  have segment := (inOrder.segment _ child notice.message bytes found inside (Ne.symm other)
    unsent).1
  have forwarded : relay.forward child =
      { relay.setUser child { relay.users child with place := .waiting } with
        sent := relay.sent ++ [⟨child, notice.message, frame bytes⟩] } := by
    unfold ChatRelay.forward
    simp only [carried, segment]
  rw [forwarded]
  exact {
    users := inOrder.users_setUser
      ((inOrder.users child).goTo .waiting _ (fun _ => nofun) rfl nofun)
    senders := inOrder.senders
    server := inOrder.server
    sent := by
      intro entry member
      rcases List.mem_append.mp member with old | new
      · exact inOrder.sent entry old
      · obtain rfl := List.mem_singleton.mp new
        exact ⟨notice.client, bytes, found, inside, Ne.symm other, rfl⟩
    once := by
      intro sender client message from_ within apart
      have before := inOrder.once sender client message from_ within apart
      have announcing := setUser_congr (fun user => user.announcing message)
        (ChatUser.announcing_forward carried message) sender
      have arriving := ChatUser.arriving_forward carried message
      unfold places at *
      simp only [List.countP_append, List.countP_singleton]
      refine Eq.trans ?_ before
      by_cases here : client = child
      · subst here
        have moved : ((relay.setUser client { relay.users client with place := .waiting }).users
            client).arriving message =
              { relay.users client with place := .waiting }.arriving message := by
          rw [ChatRelay.users_setUser, if_pos rfl]
        have isSent : isSentTo client message ⟨client, notice.message, frame bytes⟩ =
            ChatUser.about message notice := by simp [isSentTo, ChatUser.about]
        simp only [moved, isSent]
        dsimp only [ChatRelay.setUser] at announcing ⊢
        omega
      · have moved : ((relay.setUser child { relay.users child with place := .waiting }).users
            client).arriving message = (relay.users client).arriving message := by
          rw [ChatRelay.users_setUser, if_neg here]
        have isSent : isSentTo client message ⟨child, notice.message, frame bytes⟩ = false := by
          simp [isSentTo, Ne.symm here]
        simp only [moved, isSent]
        dsimp only [ChatRelay.setUser] at announcing ⊢
        simp only [Bool.false_eq_true, if_false]
        omega
    segment := by
      intro sender client message held present within apart missing
      have before := inOrder.segment sender client message held present within apart
        (fun ⟨entry, member, isSent⟩ =>
          missing ⟨entry, List.mem_append_left _ member, isSent⟩)
      simp only [ChatRelay.users_setUser]
      split
      · next here =>
          subst here
          exact ⟨before.1, nofun⟩
      · exact before }

theorem serverWait (inOrder : InOrder relay) {batch : List Nat}
    (ready : ∀ i ∈ batch, (relay.users i).toServer.raised = true ∧
      (relay.users i).toServer.reported = false) : InOrder (relay.serverWait batch) := by
  have unmoved : ∀ i, ((relay.serverWait batch).users i).announcing =
        (relay.users i).announcing ∧
      ((relay.serverWait batch).users i).arriving = (relay.users i).arriving ∧
      ((relay.serverWait batch).users i).segment = (relay.users i).segment ∧
      ((relay.serverWait batch).users i).place = (relay.users i).place := by
    intro i
    unfold ChatRelay.serverWait
    dsimp only
    split
    · exact ⟨rfl, rfl, rfl, rfl⟩
    · exact ⟨rfl, rfl, rfl, rfl⟩
  exact {
    users := by
      intro i
      unfold ChatRelay.serverWait
      dsimp only
      split
      · next member =>
          exact (inOrder.users i).report (ready i member).1 (ready i member).2
      · exact inOrder.users i
    senders := inOrder.senders
    server := inOrder.server
    sent := inOrder.sent
    once := by
      intro sender client message from_ inside other
      unfold places
      rw [(unmoved sender).1, (unmoved client).2.1]
      exact inOrder.once sender client message from_ inside other
    segment := by
      intro sender client message bytes found inside other missing
      rw [(unmoved sender).2.2.1, (unmoved sender).2.2.2]
      exact inOrder.segment sender client message bytes found inside other missing }

theorem serverTake (inOrder : InOrder relay) {child : Nat} (inside : child < relay.userCount)
    (idle : relay.server = .waiting) (reported : (relay.users child).toServer.reported = true) :
    InOrder (relay.serverTake child) := by
  obtain ⟨notice, rest, waiting⟩ := (inOrder.users child).serverMatched.head reported
  obtain ⟨own, known⟩ := (inOrder.users child).toServer notice (waiting ▸ List.mem_cons_self)
  have users : (relay.serverTake child).users = (relay.setUser child { relay.users child with
      toServer := (relay.users child).toServer.handled 1 }).users := rfl
  have unmoved : ∀ i, ((relay.serverTake child).users i).arriving = (relay.users i).arriving ∧
      ((relay.serverTake child).users i).segment = (relay.users i).segment ∧
      ((relay.serverTake child).users i).place = (relay.users i).place := by
    intro i
    rw [users, ChatRelay.users_setUser]
    split
    · next here =>
        subst here
        exact ⟨rfl, rfl, rfl⟩
    · exact ⟨rfl, rfl, rfl⟩
  have server : (relay.serverTake child).server = .broadcasting child notice 0 := by
    unfold ChatRelay.serverTake
    simp only [waiting, List.head?_cons]
  exact {
    users := inOrder.users_setUser ((inOrder.users child).taken reported)
    senders := inOrder.senders
    server := by
      intro sender other next place
      obtain ⟨rfl, rfl, rfl⟩ := ServerPlace.broadcasting.inj (server.symm.trans place)
      exact ⟨own, known, Nat.zero_lt_of_lt inside⟩
    sent := inOrder.sent
    once := by
      intro sender client message from_ within apart
      have before := inOrder.once sender client message from_ within apart
      have taken := ChatUser.announcing_taken waiting message
      have owed : (relay.serverTake child).server.owed client message =
          if ChatUser.about message notice then 1 else 0 := by
        rw [server]
        simp [ServerPlace.owed]
      have nothing : relay.server.owed client message = 0 := by
        rw [idle]
        rfl
      unfold places at *
      rw [(unmoved client).1, owed, users, ChatRelay.users_setUser]
      rw [nothing] at before
      by_cases here : sender = child
      · rw [if_pos here]
        subst here
        refine Eq.trans ?_ before
        dsimp only [ChatRelay.serverTake, ChatRelay.setUser]
        omega
      · have unlike : ChatUser.about message notice = false := by
          apply decide_eq_false
          rintro rfl
          exact here (Option.some.inj (from_.symm.trans (known.trans (congrArg some own))))
        rw [if_neg here, unlike]
        exact before
    segment := by
      intro sender client message bytes found within apart missing
      rw [(unmoved sender).2.1, (unmoved sender).2.2]
      exact inOrder.segment sender client message bytes found within apart missing }

theorem owed_next (sender : Nat) (notice : Notice) {next client : Nat}
    (within : client < relay.userCount) (inside : next < relay.userCount) (message : Nat) :
    (if next + 1 < relay.userCount then ServerPlace.broadcasting sender notice (next + 1)
      else .waiting).owed client message +
        (if client = next ∧ ChatUser.about message notice then 1 else 0) =
      (ServerPlace.broadcasting sender notice next).owed client message := by
  by_cases more : next + 1 < relay.userCount
  · rw [if_pos more]
    simp only [ServerPlace.owed]
    grind
  · have last : next ≤ client ↔ client = next := by omega
    rw [if_neg more]
    simp only [ServerPlace.owed, last, Nat.zero_add, and_comm]

theorem serverSend (inOrder : InOrder relay)
    (quiet : ∀ next ∈ relay.server.target?, (relay.users next).toChild.raised = false) :
    InOrder relay.serverSend := by
  cases place : relay.server with
  | waiting =>
      unfold ChatRelay.serverSend
      simpa only [place] using inOrder
  | broadcasting sender notice next =>
      obtain ⟨own, known, inside⟩ := inOrder.server sender notice next place
      have sent : relay.serverSend = { relay.sendTo sender notice next with
          server :=
            if next + 1 < relay.userCount then .broadcasting sender notice (next + 1)
            else .waiting } := by
        unfold ChatRelay.serverSend
        simp only [place]
      have same : (relay.sendTo sender notice next).received = relay.received ∧
          (relay.sendTo sender notice next).userCount = relay.userCount ∧
          (relay.sendTo sender notice next).sent = relay.sent := by
        unfold ChatRelay.sendTo
        split
        · exact ⟨rfl, rfl, rfl⟩
        · exact ⟨rfl, rfl, rfl⟩
      have unmoved : ∀ i, ((relay.sendTo sender notice next).users i).announcing =
            (relay.users i).announcing ∧
          ((relay.sendTo sender notice next).users i).segment = (relay.users i).segment ∧
          ((relay.sendTo sender notice next).users i).place = (relay.users i).place := by
        intro i
        rw [users_sendTo]
        split
        · exact ⟨rfl, rfl, rfl⟩
        · exact ⟨rfl, rfl, rfl⟩
      rw [sent]
      exact {
        users := by
          intro i
          simp only [same.1, users_sendTo]
          split
          · next here =>
              obtain ⟨rfl, other⟩ := here
              refine (inOrder.users i).sendTo (quiet i ?_) (own ▸ Ne.symm other) known
              simp [place, ServerPlace.target?, other]
          · exact inOrder.users i
        senders := by
          simp only [same.1, same.2.1]
          exact inOrder.senders
        server := by
          intro from_ again later here
          simp only at here
          split at here
          · next more =>
              obtain ⟨rfl, rfl, rfl⟩ := ServerPlace.broadcasting.inj here
              exact ⟨own, same.1 ▸ known, same.2.1 ▸ more⟩
          · exact nomatch here
        sent := by
          simp only [same.1, same.2.1, same.2.2]
          exact inOrder.sent
        once := by
          intro origin client message from_ within apart
          simp only [same.1] at from_
          simp only [same.2.1] at within
          have before := inOrder.once origin client message from_ within apart
          have owed := owed_next sender notice within inside message
          rw [← place] at owed
          have arriving : ((relay.sendTo sender notice next).users client).arriving message =
              (relay.users client).arriving message +
                if client = next ∧ ChatUser.about message notice then 1 else 0 := by
            rw [users_sendTo]
            split
            · next here =>
                rw [ChatUser.arriving_sendTo]
                simp [here.1]
            · next stays =>
                have unlike : ¬(client = next ∧ ChatUser.about message notice = true) := by
                  rintro ⟨rfl, isAbout⟩
                  obtain rfl : notice.message = message := by
                    simpa [ChatUser.about] using isAbout
                  have origin_own := Option.some.inj (from_.symm.trans known)
                  exact stays ⟨rfl, fun same => apart (same.trans (own.symm.trans origin_own.symm))⟩
                rw [if_neg unlike, Nat.add_zero]
          unfold places at *
          simp only [(unmoved origin).1, arriving, same.2.2]
          omega
        segment := by
          intro origin client message bytes found within apart missing
          simp only [same.1] at found
          simp only [same.2.1] at within
          simp only [(unmoved origin).2.1, (unmoved origin).2.2]
          refine inOrder.segment origin client message bytes found within apart fun already => ?_
          exact missing (by simpa only [SentTo, same.2.2] using already) }

theorem exec (inOrder : InOrder relay) {step : RelayStep} (enabled : relay.Enabled step)
    (inTurn : relay.InTurn step) : InOrder (relay.exec step) := by
  cases step with
  | clear child =>
      have holds := inOrder.users child
      exact inOrder.setUser holds.clear (ChatUser.announcing_clear enabled.2)
        (ChatUser.arriving_clear enabled.2) (.inl inTurn)
  | recv child bytes =>
      obtain ⟨inside, cleared, fits⟩ := enabled
      cases bytes with
      | some bytes =>
          have size := (fits bytes rfl).2
          exact inOrder.recv inside cleared (Nat.le_trans size (Nat.sub_le _ _))
      | none =>
          have found : relay.recv child none =
              relay.setUser child { relay.users child with place := .waiting } := by
            unfold ChatRelay.recv ChatUser.recv ChatRelay.setUser
            simp
          have announcing := ChatUser.announcing_recv cleared 0
          have arriving := ChatUser.arriving_recv cleared 0
          unfold ChatRelay.exec
          simp only [found]
          exact inOrder.setUser ((inOrder.users child).goTo .waiting _ (fun _ => nofun) rfl nofun)
            (fun message => announcing message none) (fun message => arriving message none)
            (.inl (inOrder.allSent cleared))
  | notify child =>
      have holds := inOrder.users child
      obtain ⟨message, announced⟩ := Option.isSome_iff_exists.mp enabled.2
      have notified : ((relay.users child).notify child).segment = (relay.users child).segment ∧
          ((relay.users child).notify child).place ≠ .cleared := by
        unfold ChatUser.notify
        simp only [announced]
        exact ⟨trivial, nofun⟩
      exact inOrder.setUser (holds.notify inTurn) (ChatUser.announcing_notify child)
        (ChatUser.arriving_notify child) (.inr notified)
  | childWait child =>
      obtain ⟨-, waiting, raised, handled⟩ := enabled
      exact inOrder.setUser ((inOrder.users child).wait raised handled) (fun _ => rfl)
        (fun _ => rfl) (.inr ⟨rfl, fun cleared => nomatch waiting.symm.trans cleared⟩)
  | takeNotice child =>
      obtain ⟨-, waiting, reported⟩ := enabled
      have taken : (relay.users child).takeNotice.place ≠ .cleared := by
        unfold ChatUser.takeNotice
        dsimp only
        split <;> nofun
      exact inOrder.setUser ((inOrder.users child).takeNotice reported)
        (ChatUser.announcing_takeNotice waiting) (ChatUser.arriving_takeNotice waiting)
        (.inr ⟨rfl, taken⟩)
  | forward child =>
      obtain ⟨notice, carried⟩ := Option.isSome_iff_exists.mp enabled.2
      exact inOrder.forward enabled.1 carried
  | serverWait batch =>
      obtain ⟨-, handled, -, ready⟩ := enabled
      exact inOrder.serverWait fun i member =>
        ⟨(ready i member).2, handled i (ready i member).1⟩
  | serverTake child => exact inOrder.serverTake enabled.1 enabled.2.1 enabled.2.2
  | serverSend => exact inOrder.serverSend inTurn

end InOrder

theorem inOrder_init (userCount : Nat) (shareMem : Nat → Buffer ChatRoom.bufferSize) :
    InOrder (init userCount shareMem) where
  users := fun _ =>
    { announced := fun _ => nofun
      toServer := fun _ => nofun
      toChild := fun _ => nofun
      carried := fun _ => nofun
      serverMatched := rfl
      childMatched := rfl
      cleared := nofun }
  senders := fun _ _ => nofun
  server := fun _ _ _ => nofun
  sent := fun _ => nofun
  once := fun _ _ _ => nofun
  segment := fun _ _ _ _ => nofun

/-- Nothing is left to do before a client sends again. -/
def Settled (relay : ChatRelay) : Prop :=
  ∀ step, relay.Enabled step → ∃ child, step = .clear child

/-- What is sent to a client is what another one's message becomes, each message is sent to
a client at most once, and to all the others when everything is done. -/
structure Delivered (wire : List UInt8 → List UInt8) (relay : ChatRelay) : Prop where
  faithful : ∀ entry ∈ relay.sent, ∃ sender bytes,
    relay.received[entry.message]? = some (sender, bytes) ∧ entry.client < relay.userCount ∧
      entry.client ≠ sender ∧ entry.bytes = wire bytes
  once : (relay.sent.map fun entry => (entry.client, entry.message)).Nodup
  complete : relay.Settled → ∀ child, relay.AllSent child

theorem Settled.user (settled : Settled relay) (inOrder : InOrder relay) {i : Nat}
    (inside : i < relay.userCount) :
    relay.server = .waiting ∧ (relay.users i).place = .waiting ∧
      (relay.users i).toServer.waiting = [] ∧ (relay.users i).toChild.waiting = [] := by
  have holds := inOrder.users i
  have idle : relay.server = .waiting := by
    by_contra busy
    obtain ⟨child, here⟩ := settled .serverSend busy
    exact nomatch here
  have handled : ∀ j < relay.userCount, (relay.users j).toServer.reported = false := by
    intro j within
    by_contra reported
    obtain ⟨child, here⟩ := settled (.serverTake j) ⟨within, idle, by simpa using reported⟩
    exact nomatch here
  have unraised : (relay.users i).toServer.raised = false := by
    by_contra raised
    obtain ⟨child, here⟩ := settled (.serverWait [i])
      ⟨idle, handled, nofun, by simpa [inside] using raised⟩
    exact nomatch here
  have waiting : (relay.users i).place = .waiting := by
    cases place : (relay.users i).place with
    | waiting => rfl
    | cleared =>
        obtain ⟨child, here⟩ := settled (.recv i none) ⟨inside, place, nofun⟩
        exact nomatch here
    | received message =>
        obtain ⟨child, here⟩ := settled (.notify i) ⟨inside, by rw [place]; rfl⟩
        exact nomatch here
    | forwarding notice =>
        obtain ⟨child, here⟩ := settled (.forward i) ⟨inside, by rw [place]; rfl⟩
        exact nomatch here
  have taken : (relay.users i).toChild.reported = false := by
    by_contra reported
    obtain ⟨child, here⟩ := settled (.takeNotice i) ⟨inside, waiting, by simpa using reported⟩
    exact nomatch here
  have quiet : (relay.users i).toChild.raised = false := by
    by_contra raised
    obtain ⟨child, here⟩ := settled (.childWait i)
      ⟨inside, waiting, by simpa using raised, taken⟩
    exact nomatch here
  exact ⟨idle, waiting, holds.serverMatched.waiting_nil unraised (handled i inside),
    holds.childMatched.waiting_nil quiet taken⟩

theorem InOrder.delivered (inOrder : InOrder relay) : Delivered frame relay where
  faithful := inOrder.sent
  once := by
    rw [List.nodup_iff_count_le_one]
    rintro ⟨client, message⟩
    have counted : (relay.sent.map fun entry => (entry.client, entry.message)).count
        (client, message) = relay.sent.countP (isSentTo client message) := by
      rw [List.count, List.countP_map]
      refine congrArg (List.countP · relay.sent) (funext fun entry => ?_)
      simp [isSentTo, Bool.beq_eq_decide_eq]
    rw [counted]
    by_contra several
    obtain ⟨entry, member, isSent⟩ := List.countP_pos_iff.mp (Nat.zero_lt_of_lt (Nat.not_le.mp several))
    obtain ⟨sender, bytes, found, inside, other, -⟩ := inOrder.sent entry member
    obtain ⟨rfl, rfl⟩ : entry.client = client ∧ entry.message = message := by
      simpa [isSentTo] using isSent
    have once := inOrder.once sender _ _ (senderOf_of_getElem? found) inside other
    unfold places at once
    omega
  complete := by
    intro settled child message _ from_ client inside other
    have once := inOrder.once child client message from_ inside other
    obtain ⟨idle, childWaiting, toServer, -⟩ :=
      settled.user inOrder (inOrder.senders child message from_)
    obtain ⟨-, clientWaiting, -, toChild⟩ := settled.user inOrder inside
    have sent : relay.sent.countP (isSentTo client message) = 1 := by
      simpa [places, ChatUser.announcing, ChatUser.arriving, idle, childWaiting, toServer,
        clientWaiting, toChild, ChildPlace.announced?, ChildPlace.carried?, ServerPlace.owed]
        using once
    exact List.countP_pos_iff.mp (Nat.lt_of_lt_of_eq Nat.zero_lt_one sent.symm)

instance (relay : ChatRelay) (client message : Nat) : Decidable (relay.SentTo client message) :=
  inferInstanceAs (Decidable (∃ entry ∈ relay.sent, _))

instance (relay : ChatRelay) (child : Nat) : Decidable (relay.AllSent child) :=
  inferInstanceAs (Decidable (∀ message < relay.received.length, _ → ∀ client < _, _))

instance (relay : ChatRelay) : ∀ step, Decidable (relay.InTurn step)
  | .clear child => inferInstanceAs (Decidable (relay.AllSent child))
  | .notify _ => inferInstanceAs (Decidable (_ = _))
  | .serverSend => inferInstanceAs (Decidable (∀ next ∈ relay.server.target?, _))
  | .recv _ _ => inferInstanceAs (Decidable True)
  | .childWait _ => inferInstanceAs (Decidable True)
  | .takeNotice _ => inferInstanceAs (Decidable True)
  | .forward _ => inferInstanceAs (Decidable True)
  | .serverWait _ => inferInstanceAs (Decidable True)
  | .serverTake _ => inferInstanceAs (Decidable True)

end ChatRelay

open ChatRelay in
/-- Where segments are cleared and notices sent in their turn, every message reaches every
other client once, as a whole segment. -/
theorem chatRelay_delivered (userCount : Nat) (shareMem : Nat → Buffer ChatRoom.bufferSize)
    (steps : List RelayStep)
    (run : AllowedRun (fun relay step => Enabled relay step ∧ InTurn relay step) exec
      (init userCount shareMem) steps) :
    Throughout (Delivered frame) exec (init userCount shareMem) steps :=
  (run.throughout (fun _ _ inOrder allowed => inOrder.exec allowed.1 allowed.2)
    (inOrder_init userCount shareMem)).mono fun _ inOrder => inOrder.delivered

/-- A child reads a message and its `recv` is repeated by the next one before the other
child has looked at the segment. -/
def overwritten : List RelayStep :=
  [.clear 0, .recv 0 (some [65]), .notify 0, .serverWait [0], .serverTake 0, .serverSend,
    .serverSend, .clear 0, .recv 0 (some [66]), .childWait 1, .takeNotice 1, .forward 1]

/-- The same message when the other child is in time. -/
def inTime : List RelayStep :=
  [.clear 0, .recv 0 (some [65]), .notify 0, .serverWait [0], .serverTake 0, .serverSend,
    .serverSend, .childWait 1, .takeNotice 1, .forward 1, .clear 0, .recv 0 (some [66])]

theorem chatRelay_delivered_inTime :
    Throughout (ChatRelay.Delivered frame) ChatRelay.exec
      (ChatRelay.init 2 fun _ => .zero ChatRoom.bufferSize) inTime :=
  chatRelay_delivered 2 _ inTime (by decide +kernel)

/-- Whichever of the two goes into a pipe, the second client gets bytes that begin otherwise
than the message of the first. -/
theorem overwritten_undelivered {wire : List UInt8 → List UInt8} (reading : wire = id ∨ wire = frame) :
    ¬Throughout (ChatRelay.Delivered wire) ChatRelay.exec
      (ChatRelay.init 2 fun _ => .zero ChatRoom.bufferSize) overwritten := by
  intro throughout
  have delivered := throughout_iff.mp throughout overwritten List.prefix_rfl
  obtain ⟨sender, bytes, found, -, -, same⟩ :=
    delivered.faithful ⟨1, 0, frame [66]⟩ (by decide +kernel)
  have first : (overwritten.foldl ChatRelay.exec
      (ChatRelay.init 2 fun _ => .zero ChatRoom.bufferSize)).received[0]? = some (0, [65]) := by
    decide +kernel
  obtain ⟨-, rfl⟩ := Prod.mk.inj (Option.some.inj (first.symm.trans found))
  have heads := congrArg List.head? same
  rcases reading with rfl | rfl
  · exact absurd heads (by decide)
  · exact absurd heads (by decide)

/-- Neither the bytes received nor a segment that starts with them need reach the other
client. -/
theorem chatRelay_overwritten :
    (¬∀ (userCount : Nat) (shareMem : Nat → Buffer ChatRoom.bufferSize) (steps : List RelayStep),
      AllowedRun ChatRelay.Enabled ChatRelay.exec (ChatRelay.init userCount shareMem) steps →
      Throughout (ChatRelay.Delivered id) ChatRelay.exec (ChatRelay.init userCount shareMem)
        steps) ∧
    ¬∀ (userCount : Nat) (shareMem : Nat → Buffer ChatRoom.bufferSize) (steps : List RelayStep),
      AllowedRun ChatRelay.Enabled ChatRelay.exec (ChatRelay.init userCount shareMem) steps →
      Throughout (ChatRelay.Delivered frame) ChatRelay.exec (ChatRelay.init userCount shareMem)
        steps := by
  have enabled : AllowedRun ChatRelay.Enabled ChatRelay.exec
      (ChatRelay.init 2 fun _ => .zero ChatRoom.bufferSize) overwritten := by decide +kernel
  constructor
  · intro claimed
    exact overwritten_undelivered (.inl rfl) (claimed 2 _ overwritten enabled)
  · intro claimed
    exact overwritten_undelivered (.inr rfl) (claimed 2 _ overwritten enabled)

/-- The client whose segment is cleared. -/
def RelayStep.cleared? : RelayStep → Option Nat
  | clear child => some child
  | _ => none

/-- Two clients write, and both notices are in the pipe of the third one's child before its
`epoll_wait` returns: they raise one event, for which the child reads one of them. -/
def merged : List RelayStep :=
  [.clear 0, .recv 0 (some [65]), .notify 0, .clear 1, .recv 1 (some [66]), .notify 1,
    .serverWait [0, 1], .serverTake 0, .serverSend, .serverSend, .serverSend, .serverTake 1,
    .serverSend, .serverSend, .serverSend, .childWait 0, .takeNotice 0, .forward 0, .childWait 1,
    .takeNotice 1, .forward 1, .childWait 2, .takeNotice 2, .forward 2]

theorem ChatRelay.settled_of_idle {relay : ChatRelay} (server : relay.server = .waiting)
    (users : ∀ i < relay.userCount, (relay.users i).place = .waiting ∧
      (relay.users i).toServer.raised = false ∧ (relay.users i).toServer.reported = false ∧
      (relay.users i).toChild.raised = false ∧ (relay.users i).toChild.reported = false) :
    relay.Settled := by
  intro step enabled
  cases step with
  | clear child => exact ⟨child, rfl⟩
  | recv child bytes =>
      have cleared := enabled.2.1
      rw [(users child enabled.1).1] at cleared
      cases cleared
  | notify child =>
      have announced := enabled.2
      rw [(users child enabled.1).1] at announced
      cases announced
  | childWait child =>
      have raised := enabled.2.2.1
      rw [(users child enabled.1).2.2.2.1] at raised
      cases raised
  | takeNotice child =>
      have reported := enabled.2.2
      rw [(users child enabled.1).2.2.2.2] at reported
      cases reported
  | forward child =>
      have carried := enabled.2
      rw [(users child enabled.1).1] at carried
      cases carried
  | serverWait batch =>
      obtain ⟨-, -, nonempty, all⟩ := enabled
      obtain ⟨i, member⟩ := List.exists_mem_of_ne_nil batch nonempty
      obtain ⟨inside, raised⟩ := all i member
      rw [(users i inside).2.1] at raised
      cases raised
  | serverTake child =>
      have reported := enabled.2.2
      rw [(users child enabled.1).2.2.1] at reported
      cases reported
  | serverSend => exact absurd server enabled

/-- That segments are cleared in their turn is not enough: a notice that is merged with the one
before it is never looked at, and the message is not sent. -/
theorem chatRelay_merged :
    ¬∀ (userCount : Nat) (shareMem : Nat → Buffer ChatRoom.bufferSize) (steps : List RelayStep),
      AllowedRun (fun relay step => ChatRelay.Enabled relay step ∧
        ∀ child ∈ step.cleared?, relay.AllSent child) ChatRelay.exec
        (ChatRelay.init userCount shareMem) steps →
      Throughout (ChatRelay.Delivered frame) ChatRelay.exec (ChatRelay.init userCount shareMem)
        steps := by
  intro claimed
  have throughout := claimed 3 (fun _ => .zero ChatRoom.bufferSize) merged (by decide +kernel)
  have delivered := throughout_iff.mp throughout merged List.prefix_rfl
  have settled : (merged.foldl ChatRelay.exec
      (ChatRelay.init 3 fun _ => .zero ChatRoom.bufferSize)).Settled :=
    ChatRelay.settled_of_idle (by decide +kernel) (by decide +kernel)
  have unsent : ¬(merged.foldl ChatRelay.exec
      (ChatRelay.init 3 fun _ => .zero ChatRoom.bufferSize)).AllSent 1 := by
    decide +kernel
  exact unsent (delivered.complete settled 1)

end HPLinuxServer.Execution
