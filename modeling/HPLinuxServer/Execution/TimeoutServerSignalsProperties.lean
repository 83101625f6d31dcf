import Mathlib.Data.List.Count
import HPLinuxServer.Execution.TimeoutServerSignals
import HPLinuxServer.Refinement.Stuttering

/-!
# Timeout server: no tick is lost

While `sig_handler` finds room in the pipe, the next tick is always on its way: the alarm
clock runs, or its signal is pending, or in the pipe, or `timeout` is set. So is a SIGTERM
until `stop_server` is set.
-/

set_option autoImplicit false

namespace HPLinuxServer.Execution

open Memory Kernel Timer Scheduling Refinement

variable {setup : Setup} {capacity fuel : Nat}

/-! ## What one event does -/

namespace Clients

variable {state : Clients} {event : EpollEvent} {answers : Answers}

theorem handleEvent_signals (pipe : event.fd = setup.pipefd0) (readable : event.epollin = true) :
    state.handleEvent setup (event, answers) =
      { state with clock := answers.now }.receiveSignals answers.received := by
  unfold handleEvent
  dsimp only
  rw [if_neg (pipe ▸ setup.listenfd_ne_pipefd0.symm), if_pos ⟨pipe, readable⟩]

/-- No other event touches the flags. -/
theorem handleEvent_flags (other : ¬ (event.fd = setup.pipefd0 ∧ event.epollin = true)) :
    (state.handleEvent setup (event, answers)).timeout = state.timeout ∧
      (state.handleEvent setup (event, answers)).stopServer = state.stopServer := by
  unfold handleEvent
  dsimp only
  rw [if_neg other]
  split
  · exact ⟨rfl, rfl⟩
  · split
    · unfold receive
      split <;> exact ⟨rfl, rfl⟩
    · exact ⟨rfl, rfl⟩

theorem handleEvent_clock :
    (state.handleEvent setup (event, answers)).clock = answers.now := by
  unfold handleEvent
  dsimp only
  split
  · rfl
  · split
    · unfold receiveSignals
      split <;> rfl
    · split
      · unfold receive
        split <;> rfl
      · rfl

end Clients

namespace EventLoop

variable {loop : EventLoop}

theorem receiveSignals_signals (state : Clients) :
    state.receiveSignals loop.signals =
      { state with
        timeout := state.timeout || loop.inbox.received.contains SIGALRM
        stopServer := state.stopServer || loop.inbox.received.contains SIGTERM } := by
  unfold signals
  cases loop.inbox.received with
  | nil => simp [Clients.receiveSignals]
  | cons signal signals => rfl

theorem finished_place (timeout stopServer : Bool) :
    (loop.finished timeout stopServer).place = .left ∨
      (loop.finished timeout stopServer).place = .polling := by
  cases stopServer with
  | true => exact .inl rfl
  | false => exact .inr rfl

theorem exists_handling {event : EpollEvent} (next : event ∈ loop.next) :
    ∃ events, loop.place = .handling (event :: events) := by
  unfold EventLoop.next at next
  cases place : loop.place with
  | polling => rw [place] at next; exact nomatch next
  | left => rw [place] at next; exact nomatch next
  | handling events =>
      rw [place] at next
      cases events with
      | nil => exact nomatch next
      | cons first events =>
          cases next
          exact ⟨events, rfl⟩

end EventLoop

namespace LoopingClients

variable {looping : LoopingClients} {event : EpollEvent} {events : List EpollEvent}
  {answers : Answers} {step : LoopStep}

theorem exec_event (place : looping.loop.place = .handling (event :: events)) :
    exec setup capacity looping (.event answers) =
      ⟨looping.state.handleEvent setup (event, looping.loop.answersFor setup event answers),
        looping.loop.handled setup event events (looping.loop.answersFor setup event answers)⟩ := by
  unfold exec
  dsimp only
  rw [place]

/-- The signals have been received, and the flags are set for them. -/
theorem exec_event_signals (place : looping.loop.place = .handling (event :: events))
    (pipe : event.fd = setup.pipefd0) (readable : event.epollin = true) :
    (exec setup capacity looping (.event answers)).loop.inbox = looping.loop.inbox.receive ∧
      (exec setup capacity looping (.event answers)).state.timeout =
        (looping.state.timeout || looping.loop.inbox.received.contains SIGALRM) ∧
      (exec setup capacity looping (.event answers)).state.stopServer =
        (looping.state.stopServer || looping.loop.inbox.received.contains SIGTERM) := by
  rw [exec_event place]
  dsimp only
  rw [Clients.handleEvent_signals pipe readable]
  unfold EventLoop.answersFor EventLoop.handled
  dsimp only
  rw [if_pos pipe, if_pos ⟨pipe, readable⟩, EventLoop.receiveSignals_signals]
  exact ⟨rfl, rfl, rfl⟩

/-- Any other event leaves the signals and the flags alone. -/
theorem exec_event_other (place : looping.loop.place = .handling (event :: events))
    (other : ¬ (event.fd = setup.pipefd0 ∧ event.epollin = true)) :
    (exec setup capacity looping (.event answers)).loop.inbox = looping.loop.inbox ∧
      (exec setup capacity looping (.event answers)).state.timeout = looping.state.timeout ∧
      (exec setup capacity looping (.event answers)).state.stopServer =
        looping.state.stopServer := by
  rw [exec_event place]
  refine ⟨?_, Clients.handleEvent_flags other⟩
  unfold EventLoop.handled
  dsimp only
  rw [if_neg other]

theorem exec_event_alarm :
    (exec setup capacity looping (.event answers)).loop.alarm = looping.loop.alarm ∧
      (exec setup capacity looping (.event answers)).loop.clock = looping.loop.clock := by
  unfold exec
  dsimp only
  split
  · exact ⟨rfl, rfl⟩
  · exact ⟨rfl, rfl⟩

theorem poll_inbox (setup : Setup) (looping : LoopingClients) (events : List EpollEvent) :
    (looping.loop.poll setup events).inbox = looping.loop.inbox ∨
      (looping.loop.poll setup events).inbox = looping.loop.inbox.report := by
  unfold EventLoop.poll
  dsimp only
  split
  · exact .inr rfl
  · exact .inl rfl

/-! ## The next tick is on its way -/

/-- A tick will come. -/
def Ticking (looping : LoopingClients) : Prop :=
  looping.loop.alarm.isSome = true ∨ looping.loop.inbox.Holds SIGALRM ∨
    looping.state.timeout = true

/-- A SIGTERM has been handled, or will be. -/
def Stopping (looping : LoopingClients) : Prop :=
  looping.state.stopServer = true ∨ looping.loop.inbox.Holds SIGTERM

theorem finish_flags : looping.finish.state.stopServer = looping.state.stopServer ∧
    looping.finish.state.timeout = false := by
  unfold finish Clients.timerHandler
  dsimp only
  split
  · exact ⟨rfl, rfl⟩
  · next idle => exact ⟨rfl, Bool.eq_false_iff.mpr idle⟩

theorem Ticking.exec (ticking : Ticking looping) (enabled : looping.Enabled setup step)
    (reliable : looping.Reliable capacity step) :
    Ticking (exec setup capacity looping step) := by
  cases step with
  | signal signal => exact ticking.imp_right fun later => later.imp_left fun held => held.raise signal
  | expire => exact .inr (.inl SignalPipe.holds_raise)
  | deliver signal =>
      exact ticking.imp_right fun later => later.imp_left fun held => held.deliver reliable signal
  | second => exact ticking
  | poll events =>
      refine ticking.imp_right fun later => later.imp_left fun held => ?_
      show ((looping.loop.poll setup events).inbox).Holds SIGALRM
      rcases poll_inbox setup looping events with same | reported
      · exact same ▸ held
      · exact reported ▸ held
  | event answers =>
      obtain ⟨event, next, -⟩ := enabled
      obtain ⟨events, place⟩ := EventLoop.exists_handling next
      unfold Ticking
      rw [exec_event_alarm.1]
      rcases Decidable.em (event.fd = setup.pipefd0 ∧ event.epollin = true) with pipe | other
      · obtain ⟨inbox, timeout, -⟩ := exec_event_signals place pipe.1 pipe.2
        rw [inbox, timeout]
        rcases ticking with armed | held | due
        · exact .inl armed
        · refine .inr (held.receive.imp_right fun received => ?_)
          simp [received]
        · exact .inr (.inr (by simp [due]))
      · obtain ⟨inbox, timeout, -⟩ := exec_event_other place other
        rw [inbox, timeout]
        exact ticking
  | finish =>
      show Ticking looping.finish
      cases timeout : looping.state.timeout with
      | true =>
          refine .inl ?_
          unfold LoopingClients.finish EventLoop.finished
          dsimp only
          rw [if_pos timeout]
          rfl
      | false =>
          unfold LoopingClients.finish EventLoop.finished Ticking
          dsimp only
          rw [timeout]
          exact ticking.imp_right fun later => later.imp_right fun due => nomatch timeout ▸ due

theorem Stopping.exec (stopping : Stopping looping) (enabled : looping.Enabled setup step)
    (reliable : looping.Reliable capacity step) :
    Stopping (exec setup capacity looping step) := by
  cases step with
  | signal signal => exact stopping.imp_right fun held => held.raise signal
  | expire => exact stopping.imp_right fun held => held.raise SIGALRM
  | deliver signal => exact stopping.imp_right fun held => held.deliver reliable signal
  | second => exact stopping
  | poll events =>
      refine stopping.imp_right fun held => ?_
      show ((looping.loop.poll setup events).inbox).Holds SIGTERM
      rcases poll_inbox setup looping events with same | reported
      · exact same ▸ held
      · exact reported ▸ held
  | event answers =>
      obtain ⟨event, next, -⟩ := enabled
      obtain ⟨events, place⟩ := EventLoop.exists_handling next
      unfold Stopping
      rcases Decidable.em (event.fd = setup.pipefd0 ∧ event.epollin = true) with pipe | other
      · obtain ⟨inbox, -, stop⟩ := exec_event_signals place pipe.1 pipe.2
        rw [inbox, stop]
        rcases stopping with stops | held
        · exact .inl (by simp [stops])
        · refine held.receive.symm.imp_left fun received => ?_
          simp [received]
      · obtain ⟨inbox, -, stop⟩ := exec_event_other place other
        rw [inbox, stop]
        exact stopping
  | finish => exact stopping.imp_left fun stops => finish_flags.1.trans stops

/-! ## One tick at a time -/

/-- The ticks that are on their way. -/
def ticks (looping : LoopingClients) : Nat :=
  looping.loop.alarm.toList.length + looping.loop.inbox.count SIGALRM +
    looping.state.timeout.toNat

theorem ticks_event_signals (place : looping.loop.place = .handling (event :: events))
    (pipe : event.fd = setup.pipefd0) (readable : event.epollin = true)
    (single : looping.ticks = 1) :
    (exec setup capacity looping (.event answers)).ticks = 1 := by
  obtain ⟨inbox, timeout, -⟩ :=
    exec_event_signals place pipe readable
  unfold ticks at single ⊢
  rw [exec_event_alarm.1, inbox, timeout]
  have whole := looping.loop.inbox.count_receive SIGALRM
  cases received : looping.loop.inbox.received.contains SIGALRM with
  | false =>
      rw [Bool.or_false]
      have absent : looping.loop.inbox.received.count SIGALRM = 0 :=
        List.count_eq_zero.mpr (by simpa using received)
      omega
  | true =>
      rw [Bool.or_true]
      have present : 0 < looping.loop.inbox.received.count SIGALRM :=
        List.count_pos_iff.mpr (by simpa using received)
      simp only [Bool.toNat_true]
      omega

theorem ticks_finish (single : looping.ticks = 1) : looping.finish.ticks = 1 := by
  unfold ticks at single ⊢
  rw [finish_flags.2]
  unfold finish EventLoop.finished
  dsimp only
  cases timeout : looping.state.timeout with
  | true =>
      rw [timeout, Bool.toNat_true] at single
      simp only [↓reduceIte, Option.toList_some, List.length_singleton, Bool.toNat_false]
      omega
  | false =>
      rw [timeout] at single
      simpa using single

/-- If nobody else sends SIGALRM, a tick is followed by exactly one. -/
theorem ticks_exec (single : looping.ticks = 1) (enabled : looping.Enabled setup step)
    (reliable : looping.Reliable capacity step) (own : step ≠ .signal SIGALRM) :
    (exec setup capacity looping step).ticks = 1 := by
  cases step with
  | signal signal =>
      rcases enabled with rfl | rfl
      · exact absurd rfl own
      · unfold ticks at single ⊢
        unfold exec EventLoop.kernel
        dsimp only
        rw [SignalPipe.count_raise_of_ne (by decide)]
        exact single
  | expire =>
      obtain ⟨due, armed, -⟩ := enabled
      unfold ticks at single ⊢
      unfold exec EventLoop.kernel
      dsimp only
      rw [Option.mem_def.mp armed] at single
      simp only [Option.toList_some, List.length_singleton] at single
      have fresh : SIGALRM ∉ looping.loop.inbox.pending := by
        intro pending
        have positive := List.count_pos_iff.mpr pending
        unfold SignalPipe.count at single
        omega
      rw [SignalPipe.count_raise fresh]
      simp only [Option.toList_none, List.length_nil]
      omega
  | deliver signal =>
      unfold ticks at single ⊢
      unfold exec EventLoop.kernel
      dsimp only
      rw [SignalPipe.count_deliver enabled reliable]
      exact single
  | second => exact single
  | poll events =>
      unfold ticks at single ⊢
      unfold exec
      dsimp only
      rcases poll_inbox setup looping events with same | reported
      · rw [same]; exact single
      · rw [reported]; exact single
  | event answers =>
      obtain ⟨event, next, -⟩ := enabled
      obtain ⟨events, place⟩ := EventLoop.exists_handling next
      rcases Decidable.em (event.fd = setup.pipefd0 ∧ event.epollin = true) with pipe | other
      · exact ticks_event_signals place pipe.1 pipe.2 single
      · obtain ⟨inbox, timeout, -⟩ := exec_event_other place other
        unfold ticks at single ⊢
        rw [exec_event_alarm.1, inbox, timeout]
        exact single
  | finish => exact ticks_finish single

/-! ## The server and its clients -/

/-- What the batch at hand and the clock have to do with the clients. -/
structure Regular (setup : Setup) (looping : LoopingClients) : Prop where
  clock : looping.state.clock = looping.loop.clock
  heard : ∀ client ∈ looping.state.clients, client.lastSeen = looping.loop.heard client.fd
  distinct : ∀ events, looping.loop.place = .handling events →
    (events.map EpollEvent.fd).Nodup
  watched : ∀ events, looping.loop.place = .handling events →
    ∀ event ∈ events, looping.state.Watched setup event.fd

theorem regular_start (setup : Setup) (now : Int) : Regular setup (start now) where
  clock := rfl
  heard := nofun
  distinct := nofun
  watched := nofun

theorem Regular.withInbox (regular : Regular setup looping) (inbox : SignalPipe UInt8)
    (interrupted : Bool) (alarm : Option Int) :
    Regular setup { looping with loop := { looping.loop with inbox, interrupted, alarm } } :=
  ⟨regular.clock, regular.heard, regular.distinct, regular.watched⟩

theorem heard_handleEvent {state : Clients} {loop : EventLoop}
    (heard : ∀ client ∈ state.clients, client.lastSeen = loop.heard client.fd)
    (clock : answers.now = loop.clock)
    (allowed : state.AnswersAllowed setup (event, answers)) :
    ∀ client ∈ (state.handleEvent setup (event, answers)).clients,
      client.lastSeen = loop.hear setup event answers client.fd := by
  unfold Clients.handleEvent EventLoop.hear
  dsimp only
  split
  · next listening =>
      have fresh := (allowed.2 listening).2.2.1
      intro client member
      rcases List.mem_cons.mp member with rfl | member
      · rw [Function.update_self, ← clock]
      · rw [Function.update_of_ne, heard client member]
        rintro same
        exact fresh (same ▸ List.mem_map_of_mem member)
  · split
    · unfold Clients.receiveSignals
      split <;> exact heard
    · split
      · unfold Clients.receive
        cases answers.received with
        | failed eagain =>
            cases eagain with
            | true => exact heard
            | false => exact fun client member => heard client (List.mem_of_mem_filter member)
        | bytes data =>
            cases data with
            | nil => exact fun client member => heard client (List.mem_of_mem_filter member)
            | cons byte data =>
                intro client member
                obtain ⟨before, present, rfl⟩ := List.mem_map.mp member
                unfold Client.seen
                dsimp only
                split
                · next same => rw [same, Function.update_self, ← clock]
                · next apart => rw [Function.update_of_ne apart, heard before present]
      · exact heard

/-- What a round leaves of the clients. -/
theorem mem_finish {client : Client} (member : client ∈ looping.finish.state.clients) :
    client ∈ looping.state.clients ∧
      (looping.state.timeout = true → looping.loop.clock < client.lastSeen + 3 * TIMESLOT) := by
  unfold finish Clients.timerHandler at member
  dsimp only at member
  split at member
  · obtain ⟨present, fresh⟩ := List.mem_filter.mp member
    exact ⟨present, fun _ => of_decide_eq_true fresh⟩
  · next idle => exact ⟨member, fun due => absurd due idle⟩

theorem finish_loop_place :
    looping.finish.loop.place = if looping.finish.state.stopServer then .left else .polling := rfl

theorem finish_place (looping : LoopingClients) :
    looping.finish.loop.place = .left ∨ looping.finish.loop.place = .polling :=
  EventLoop.finished_place looping.state.timeout _

theorem finish_clock (looping : LoopingClients) :
    looping.finish.state.clock = looping.state.clock ∧
      looping.finish.loop.clock = looping.loop.clock ∧
      looping.finish.loop.heard = looping.loop.heard := by
  unfold finish Clients.timerHandler
  dsimp only
  split <;> exact ⟨rfl, rfl, rfl⟩

theorem Regular.exec (regular : Regular setup looping) (enabled : looping.Enabled setup step) :
    Regular setup (exec setup capacity looping step) := by
  cases step with
  | signal signal => exact regular.withInbox _ _ _
  | expire => exact regular.withInbox _ _ _
  | deliver signal => exact regular.withInbox _ _ _
  | second => exact ⟨rfl, regular.heard, regular.distinct, regular.watched⟩
  | poll events =>
      obtain ⟨-, distinct, watched, -⟩ := enabled
      refine ⟨regular.clock, regular.heard, fun others place => ?_, fun others place => ?_⟩
      · cases place
        exact distinct
      · cases place
        exact watched
  | event answers =>
      obtain ⟨event, next, allowed⟩ := enabled
      obtain ⟨events, place⟩ := EventLoop.exists_handling next
      obtain ⟨apart, distinct⟩ := List.nodup_cons.mp (regular.distinct _ place)
      rw [exec_event place]
      refine ⟨Clients.handleEvent_clock, heard_handleEvent regular.heard rfl allowed, ?_, ?_⟩
      · intro others same
        cases same
        exact distinct
      · intro others same other member
        cases same
        refine Clients.watched_handleEvent
          (regular.watched _ place other (List.mem_cons_of_mem _ member)) fun same => apart ?_
        exact same ▸ List.mem_map_of_mem member
  | finish =>
      obtain ⟨stateClock, loopClock, heard⟩ := finish_clock looping
      have elsewhere : ∀ events, looping.finish.loop.place ≠ .handling events := by
        intro events place
        rcases finish_place looping with left | polling
        · exact nomatch left.symm.trans place
        · exact nomatch polling.symm.trans place
      refine ⟨?_, ?_, ?_, ?_⟩
      · exact stateClock.trans (regular.clock.trans loopClock.symm)
      · intro client member
        rw [show (LoopingClients.exec setup capacity looping .finish).loop.heard = _ from heard]
        exact regular.heard client (mem_finish member).1
      · exact fun events place => absurd place (elsewhere events)
      · exact fun events place => absurd place (elsewhere events)

end LoopingClients

/-- The server and the clients are in the same loop and agree on who is open. -/
structure Mirrors (setup : Setup) (looping : LoopingServer) (clients : LoopingClients) : Prop where
  agreement : Agreement setup looping.server clients.state
  loop : looping.loop = clients.loop

namespace Mirrors

variable {looping : LoopingServer} {clients : LoopingClients} {step : LoopStep}

theorem start (setup : Setup) (now : Int) :
    Mirrors setup (LoopingServer.start setup now) (LoopingClients.start now) :=
  ⟨agreement_start setup now, rfl⟩

theorem finish (mirrors : Mirrors setup looping clients)
    (clock : clients.state.clock = clients.loop.clock)
    (enough : clients.state.clients.length ≤ fuel) :
    ∃ next, looping.finish setup fuel = .ok next ∧ Mirrors setup next clients.finish := by
  obtain ⟨server, loop⟩ := looping
  obtain ⟨agreement, same⟩ := mirrors
  cases same
  have nothing : clients.state.BatchAllowed setup ⟨[], clients.loop.clock⟩ :=
    ⟨List.nodup_nil, nofun, trivial, Int.le_of_eq clock⟩
  obtain ⟨server', finished, agreement'⟩ := agreement.handleBatch_spec nothing nofun enough
  have state : clients.state.handleBatch setup ⟨[], clients.loop.clock⟩ = clients.finish.state := by
    unfold Clients.handleBatch LoopingClients.finish
    dsimp only [List.foldl_nil]
    rw [← clock]
  have flags : clients.loop.finished server.world.timeout server'.world.stopServer =
      clients.finish.loop := by
    rw [agreement.timeout, agreement'.stopServer, state]
    rfl
  refine ⟨⟨server', clients.finish.loop⟩, ?_, state ▸ agreement', rfl⟩
  have unfolded : LoopingServer.finish setup fuel ⟨server, clients.loop⟩ =
      (handleBatch setup fuel server ⟨[], clients.loop.clock⟩).bind fun server' =>
        .ok ⟨server', clients.loop.finished server.world.timeout server'.world.stopServer⟩ := rfl
  rw [unfolded, finished, ← flags]
  rfl

theorem exec (mirrors : Mirrors setup looping clients) (regular : clients.Regular setup)
    (enabled : clients.Enabled setup step) (inTable : clients.InTable setup step)
    (enough : clients.state.clients.length ≤ fuel) :
    ∃ next, looping.exec setup capacity fuel step = .ok next ∧
      Mirrors setup next (clients.exec setup capacity step) := by
  obtain ⟨server, loop⟩ := looping
  obtain ⟨agreement, same⟩ := mirrors
  cases same
  cases step with
  | signal signal => exact ⟨_, rfl, agreement, rfl⟩
  | expire => exact ⟨_, rfl, agreement, rfl⟩
  | deliver signal => exact ⟨_, rfl, agreement, rfl⟩
  | second =>
      refine ⟨_, rfl, agreement.clock ?_, rfl⟩
      rw [regular.clock]
      exact Int.le_add_of_nonneg_right Int.one_nonneg
  | poll events => exact ⟨_, rfl, agreement, rfl⟩
  | event answers =>
      obtain ⟨event, next, allowed⟩ := enabled
      obtain ⟨events, place⟩ := EventLoop.exists_handling next
      obtain ⟨server', handled, agreement'⟩ := agreement.handleEvent_spec
        (regular.watched _ place event List.mem_cons_self) allowed
        (fun listening => (inTable event next listening).2) enough
      rw [LoopingClients.exec_event place]
      refine ⟨⟨server', clients.loop.handled setup event events
        (clients.loop.answersFor setup event answers)⟩, ?_, agreement', rfl⟩
      unfold LoopingServer.exec
      dsimp only
      rw [place]
      dsimp only
      rw [handled]
      rfl
  | finish => exact finish ⟨agreement, rfl⟩ regular.clock enough

end Mirrors

namespace LoopingClients

theorem length_exec (setup : Setup) (capacity : Nat) (looping : LoopingClients) (step : LoopStep) :
    (exec setup capacity looping step).state.clients.length ≤
      looping.state.clients.length + 1 := by
  cases step with
  | signal signal => exact Nat.le_succ _
  | expire => exact Nat.le_succ _
  | deliver signal => exact Nat.le_succ _
  | second => exact Nat.le_succ _
  | poll events => exact Nat.le_succ _
  | event answers =>
      unfold exec
      dsimp only
      split
      · exact Clients.length_handleEvent setup _ _
      · exact Nat.le_succ _
  | finish =>
      refine Nat.le_succ_of_le ?_
      unfold exec finish Clients.timerHandler
      dsimp only
      split
      · exact List.length_filter_le _ _
      · exact Nat.le_refl _

theorem length_steps (setup : Setup) (capacity : Nat) (looping : LoopingClients)
    (steps : List LoopStep) :
    (steps.foldl (exec setup capacity) looping).state.clients.length ≤
      looping.state.clients.length + steps.length := by
  induction steps generalizing looping with
  | nil => exact Nat.le_refl _
  | cons step steps ih =>
      have later := ih (exec setup capacity looping step)
      have once := length_exec setup capacity looping step
      rw [List.foldl_cons, List.length_cons]
      omega

end LoopingClients

/-- The server goes where the clients go, as far as its timer list is not longer than the run. -/
theorem runOps_mirrors {now : Int} {steps : List LoopStep}
    (run : AllowedRun (fun looping step => looping.Enabled setup step ∧ looping.InTable setup step)
      (LoopingClients.exec setup capacity) (LoopingClients.start now) steps)
    (enough : steps.length ≤ fuel) :
    ∃ final, runOps (LoopingServer.exec setup capacity fuel) (LoopingServer.start setup now)
        steps = .ok final ∧
      Mirrors setup final
        (steps.foldl (LoopingClients.exec setup capacity) (LoopingClients.start now)) := by
  have grows : ∀ (looping : LoopingClients) step,
      (looping.exec setup capacity step).state.clients.length ≤
        looping.state.clients.length + 1 := LoopingClients.length_exec setup capacity
  have room : (LoopingClients.start now).state.clients.length + (steps.map fun _ => 1).sum ≤
      fuel := by
    rw [sum_map_one]
    exact (Nat.zero_add _).symm ▸ enough
  have bounded : AllowedRun (fun looping step =>
      (LoopingClients.Regular setup looping ∧
        looping.Enabled setup step ∧ looping.InTable setup step) ∧
        looping.state.clients.length + 1 ≤ fuel)
      (LoopingClients.exec setup capacity) (LoopingClients.start now) steps :=
    AllowedRun.and_bound grows (run.and_invariant (fun _ _ regular both => regular.exec both.1)
      (LoopingClients.regular_start setup now)) room
  exact runOps_refines (fun _ _ _ mirrors allowed => mirrors.exec allowed.1.1 allowed.1.2.1
    allowed.1.2.2 (Nat.le_of_succ_le allowed.2)) (Mirrors.start setup now) bounded

open LoopingClients in
/-- Whatever signals arrive and whatever the clients do, a tick of the timer list is on its
way in every state the server reaches, as long as its handler finds room in the pipe and
`users` has an entry for every connection; if nobody else sends SIGALRM it is the only one. -/
theorem timeoutServer_keepsTicking (setup : Setup) (capacity : Nat) (now : Int)
    (steps : List LoopStep)
    (run : AllowedRun (fun looping step => (looping.Enabled setup step ∧
      looping.InTable setup step) ∧ looping.Reliable capacity step) (exec setup capacity)
      (LoopingClients.start now) steps)
    (fuel : Nat) (enough : steps.length ≤ fuel) :
    ∃ final, runOps (LoopingServer.exec setup capacity fuel) (LoopingServer.start setup now)
        steps = .ok final ∧
      (final.loop.alarm.isSome = true ∨ final.loop.inbox.Holds SIGALRM ∨
        final.server.world.timeout = true) ∧
      ((∀ step ∈ steps, step ≠ .signal SIGALRM) →
        final.loop.alarm.toList.length + final.loop.inbox.count SIGALRM +
          final.server.world.timeout.toNat = 1) := by
  obtain ⟨final, done, mirrors⟩ := runOps_mirrors (run.mono fun _ _ both => both.1) enough
  refine ⟨final, done, ?_, fun own => ?_⟩
  · rw [mirrors.loop, mirrors.agreement.timeout]
    have ticking : Throughout Ticking (exec setup capacity) (LoopingClients.start now) steps :=
      run.throughout (fun _ _ ticking both => ticking.exec both.1.1 both.2) (.inl rfl)
    exact throughout_iff.mp ticking steps List.prefix_rfl
  · rw [mirrors.loop, mirrors.agreement.timeout]
    have keeps : ∀ (looping : LoopingClients) step, looping.ticks = 1 →
        ((looping.Enabled setup step ∧ looping.InTable setup step) ∧
          looping.Reliable capacity step) ∧ step ≠ .signal SIGALRM →
            (looping.exec setup capacity step).ticks = 1 :=
      fun _ _ single both => ticks_exec single both.1.1.1 both.1.2 both.2
    have single : Throughout (fun looping => looping.ticks = 1) (exec setup capacity)
        (LoopingClients.start now) steps :=
      AllowedRun.throughout keeps rfl (run.and_mem own)
    exact throughout_iff.mp single steps List.prefix_rfl

/-- Five seconds and a tick. -/
def sampleTick : List LoopStep :=
  List.replicate 5 .second ++
    [.expire, .deliver SIGALRM, .poll [⟨5, true⟩], .event ⟨0, 0, 0, .bytes []⟩, .finish]

/-- A client connects, and the first tick does not find it idle. -/
def sampleLoop : List LoopStep :=
  [.poll [⟨3, true⟩], .event ⟨7, 1, 0, .bytes []⟩, .finish] ++ sampleTick

theorem timeoutServer_keepsTicking_sampleLoop :
    ∃ final, runOps (LoopingServer.exec sampleSetup 8 13) (LoopingServer.start sampleSetup 0)
        sampleLoop = .ok final ∧
      (final.loop.alarm.isSome = true ∨ final.loop.inbox.Holds SIGALRM ∨
        final.server.world.timeout = true) ∧
      ((∀ step ∈ sampleLoop, step ≠ .signal SIGALRM) →
        final.loop.alarm.toList.length + final.loop.inbox.count SIGALRM +
          final.server.world.timeout.toNat = 1) :=
  timeoutServer_keepsTicking sampleSetup 8 0 sampleLoop (by decide) 13 (by decide)

end HPLinuxServer.Execution
