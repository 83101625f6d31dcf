import Mathlib.Data.Int.SuccPred
import Mathlib.Order.Interval.Set.Infinite
import HPLinuxServer.Execution.TimeoutServerSignalsProperties

/-!
# Timeout server: idle clients and shutdown

When the server comes to rest, and how long a silent connection stays open if it is at
rest whenever a second passes.
-/

set_option autoImplicit false

namespace HPLinuxServer.Execution

open Memory Kernel Timer Scheduling Refinement

variable {setup : Setup} {capacity fuel : Nat}

/-! ## At rest -/

/-- The loop waits for the clock, for clients or for new signals, or it is left. -/
def EventLoop.Rests (loop : EventLoop) : Prop :=
  loop.place = .left ∨
    loop.place = .polling ∧ loop.inbox.pending = [] ∧ loop.inbox.pipe.raised = false ∧
      ∀ due ∈ loop.alarm, loop.clock < due

instance (loop : EventLoop) : Decidable loop.Rests :=
  inferInstanceAs (Decidable (_ ∨ _ ∧ _ ∧ _ ∧ ∀ due ∈ loop.alarm, _))

namespace LoopingClients

variable {looping : LoopingClients} {step : LoopStep}

/-- There is an event for what is in the pipe, and the loop does not wait with a flag set. -/
structure Attentive (setup : Setup) (capacity : Nat) (looping : LoopingClients) : Prop where
  sound : looping.loop.inbox.Sound capacity
  reported : looping.loop.inbox.pipe.reported = true →
    ∃ events, looping.loop.place = .handling events ∧ setup.pipefd0 ∈ events.map EpollEvent.fd
  readable : ∀ events, looping.loop.place = .handling events →
    ∀ event ∈ events, event.fd = setup.pipefd0 → event.epollin = true
  resting : looping.loop.place = .polling →
    looping.state.timeout = false ∧ looping.state.stopServer = false

theorem attentive_start (setup : Setup) (capacity : Nat) (now : Int) :
    Attentive setup capacity (start now) where
  sound := SignalPipe.sound_empty
  reported := nofun
  readable := nofun
  resting _ := ⟨rfl, rfl⟩

namespace Attentive

/-- Nothing is left in the pipe when the loop waits. -/
theorem empty (attentive : Attentive setup capacity looping)
    (polling : looping.loop.place = .polling)
    (quiet : looping.loop.inbox.pipe.raised = false) : looping.loop.inbox.pipe.waiting = [] := by
  refine Decidable.byContradiction fun waiting => ?_
  rcases attentive.sound.covered waiting with raised | reported
  · exact nomatch quiet.symm.trans raised
  · obtain ⟨events, place, -⟩ := attentive.reported reported
    exact nomatch polling.symm.trans place

theorem withInbox (attentive : Attentive setup capacity looping) {inbox : SignalPipe UInt8}
    (interrupted : Bool) (alarm : Option Int) (sound : inbox.Sound capacity)
    (same : inbox.pipe.reported = looping.loop.inbox.pipe.reported) :
    Attentive setup capacity
      { looping with loop := { looping.loop with inbox, interrupted, alarm } } :=
  ⟨sound, fun reported => attentive.reported (same ▸ reported), attentive.readable,
    attentive.resting⟩

theorem exec (attentive : Attentive setup capacity looping)
    (small : capacity ≤ SignalPipe.bufferSize) (enabled : looping.Enabled setup step) :
    Attentive setup capacity (exec setup capacity looping step) := by
  cases step with
  | signal signal =>
      exact attentive.withInbox _ _ (attentive.sound.raise signal)
        (by rw [SignalPipe.raise_pipe])
  | expire =>
      exact attentive.withInbox _ _ (attentive.sound.raise SIGALRM) (by rw [SignalPipe.raise_pipe])
  | deliver signal =>
      refine attentive.withInbox _ _ (attentive.sound.deliver signal) ?_
      unfold SignalPipe.deliver
      dsimp only
      split <;> rfl
  | second =>
      exact ⟨attentive.sound, attentive.reported, attentive.readable, attentive.resting⟩
  | poll events =>
      obtain ⟨polling, -, -, readable⟩ := enabled
      have notHandling : ∀ others, looping.loop.place ≠ .handling others := by
        intro others place
        exact nomatch polling.symm.trans place
      refine ⟨?_, ?_, ?_, nofun⟩
      · show (looping.loop.poll setup events).inbox.Sound capacity
        rcases poll_inbox setup looping events with same | reported
        · exact same ▸ attentive.sound
        · exact reported ▸ attentive.sound.report
      · intro reported
        refine ⟨events, rfl, Decidable.byContradiction fun elsewhere => ?_⟩
        change (looping.loop.poll setup events).inbox.pipe.reported = true at reported
        unfold EventLoop.poll at reported
        dsimp only at reported
        rw [if_neg elsewhere] at reported
        obtain ⟨others, place, -⟩ := attentive.reported reported
        exact notHandling others place
      · intro others place event member same
        cases place
        exact (readable event member same).1
  | event answers =>
      obtain ⟨event, next, -⟩ := enabled
      obtain ⟨events, place⟩ := EventLoop.exists_handling next
      have handling : (LoopingClients.exec setup capacity looping (.event answers)).loop.place =
          .handling events := by
        rw [exec_event place]
        rfl
      have readable : ∀ others,
          (LoopingClients.exec setup capacity looping (.event answers)).loop.place =
            .handling others →
          ∀ other ∈ others, other.fd = setup.pipefd0 → other.epollin = true := by
        intro others same other member
        cases handling.symm.trans same
        exact attentive.readable _ place other (List.mem_cons_of_mem _ member)
      have working : (LoopingClients.exec setup capacity looping (.event answers)).loop.place ≠
          .polling := by
        rw [handling]
        exact nofun
      rcases Decidable.em (event.fd = setup.pipefd0 ∧ event.epollin = true) with pipe | other
      · obtain ⟨inbox, -⟩ := exec_event_signals place pipe.1 pipe.2
        refine ⟨inbox ▸ attentive.sound.receive small, fun reported => ?_, readable,
          fun polling => absurd polling working⟩
        rw [inbox] at reported
        exact nomatch reported
      · obtain ⟨inbox, -⟩ := exec_event_other place other
        refine ⟨inbox ▸ attentive.sound, fun reported => ?_, readable,
          fun polling => absurd polling working⟩
        rw [inbox] at reported
        obtain ⟨others, before, member⟩ := attentive.reported reported
        cases place.symm.trans before
        refine ⟨events, handling, (List.mem_cons.mp member).resolve_left fun same => ?_⟩
        exact other ⟨same.symm, attentive.readable _ place event List.mem_cons_self same.symm⟩
  | finish =>
      have elsewhere : ∀ events, looping.finish.loop.place ≠ .handling events := by
        intro events place
        rcases finish_place looping with left | polling
        · exact nomatch left.symm.trans place
        · exact nomatch polling.symm.trans place
      refine ⟨attentive.sound, fun reported => ?_, fun events place => absurd place (elsewhere events),
        fun polling => ⟨finish_flags.2, Bool.eq_false_iff.mpr fun stop => ?_⟩⟩
      · obtain ⟨events, place, member⟩ := attentive.reported reported
        cases (show looping.loop.place = .handling [] from enabled).symm.trans place
        exact nomatch member
      · change looping.finish.state.stopServer = true at stop
        change looping.finish.loop.place = .polling at polling
        rw [finish_loop_place, if_pos stop] at polling
        exact nomatch polling

end Attentive

/-- At rest in its loop the server has its alarm set, and has not been told to stop. -/
theorem Attentive.rests (attentive : Attentive setup capacity looping)
    (ticking : Ticking looping) (rests : looping.loop.Rests)
    (stays : looping.loop.place ≠ .left) :
    looping.loop.place = .polling ∧ (∃ due ∈ looping.loop.alarm, looping.loop.clock < due) ∧
      ¬ Stopping looping := by
  rcases rests with left | ⟨polling, pending, quiet, notDue⟩
  · exact absurd left stays
  · have nothing : ∀ signal, ¬ looping.loop.inbox.Holds signal := by
      rintro signal (waits | waits)
      · rw [pending] at waits
        exact nomatch waits
      · rw [attentive.empty polling quiet] at waits
        exact nomatch waits
    obtain ⟨timeout, stop⟩ := attentive.resting polling
    refine ⟨polling, ?_, ?_⟩
    · rcases ticking with armed | held | due
      · obtain ⟨due, armed⟩ := Option.isSome_iff_exists.mp armed
        exact ⟨due, armed, notDue due armed⟩
      · exact absurd held (nothing SIGALRM)
      · exact nomatch timeout.symm.trans due
    · rintro (stops | held)
      · exact nomatch stop.symm.trans stops
      · exact nothing SIGTERM held

/-! ## Coming to rest -/

/-- A step that the server and the kernel take by themselves: no client sends anything. An
`epoll_wait` in which a handler has run returns without events. -/
def Internal (setup : Setup) (looping : LoopingClients) : LoopStep → Prop
  | .signal _ => False
  | .expire => True
  | .deliver _ => True
  | .second => False
  | .poll events =>
      events = [] ∧ looping.loop.interrupted = true ∨ events = [⟨setup.pipefd0, true⟩]
  | .event _ => True
  | .finish => True

/-- Only the clock, clients and new signals can still make the server move. -/
def Settled (setup : Setup) (looping : LoopingClients) : Prop :=
  ∀ step, looping.Internal setup step → ¬ looping.Enabled setup step

/-- The kernel and `new` have something to answer to every event. -/
theorem Regular.exists_answers (regular : Regular setup looping)
    (few : ∃ bound, ∀ fd, setup.own fd = true → fd < bound) (event : EpollEvent) :
    ∃ answers, looping.state.AnswersAllowed setup
      (event, looping.loop.answersFor setup event answers) := by
  obtain ⟨bound, ownBelow⟩ := few
  obtain ⟨connfd, above, notOpen⟩ :=
    (Set.Ici_infinite (max 0 bound)).exists_notMem_finset looping.state.fds.toFinset
  obtain ⟨timer, fresh⟩ := Infinite.exists_notMem_finset looping.state.timers.toFinset
  have low : 0 ≤ connfd := (le_max_left 0 bound).trans above
  have notOwn : setup.own connfd = false := Bool.eq_false_iff.mpr fun own =>
    absurd (ownBelow connfd own) (Int.not_lt.mpr ((le_max_right 0 bound).trans above))
  exact ⟨⟨connfd, timer, 0, .failed true⟩, Int.le_of_eq regular.clock, fun _ =>
    ⟨low, notOwn, mt List.mem_toFinset.mpr notOpen, mt List.mem_toFinset.mpr fresh⟩⟩

/-- A server that cannot move by itself is at rest, since it can handle every event. -/
theorem Settled.rests (settled : Settled setup looping) (regular : Regular setup looping)
    (few : ∃ bound, ∀ fd, setup.own fd = true → fd < bound) : looping.loop.Rests := by
  cases place : looping.loop.place with
  | left => exact .inl place
  | polling =>
      refine .inr ⟨place, ?_, ?_, ?_⟩
      · exact List.eq_nil_iff_forall_not_mem.mpr fun signal pending =>
          settled (.deliver signal) trivial pending
      · refine Bool.eq_false_iff.mpr fun raised => ?_
        refine settled (.poll [⟨setup.pipefd0, true⟩]) (.inr rfl) ⟨place, by simp, ?_, ?_⟩
        · exact List.forall_mem_singleton.mpr (.inr (.inl rfl))
        · exact List.forall_mem_singleton.mpr fun _ => ⟨rfl, raised⟩
      · exact fun due armed => Int.not_le.mp fun late => settled .expire trivial ⟨due, armed, late⟩
  | handling events =>
      cases events with
      | nil => exact absurd place (settled .finish trivial)
      | cons event events =>
          obtain ⟨answers, allowed⟩ := regular.exists_answers few event
          have next : event ∈ looping.loop.next := by
            unfold EventLoop.next
            rw [place]
            rfl
          exact absurd ⟨event, next, allowed⟩ (settled (.event answers) trivial)

end LoopingClients

/-- What is left to do in this round. -/
def LoopPlace.work : LoopPlace → Nat
  | polling => 0
  | handling events => events.length + 1
  | left => 0

namespace EventLoop

/-- The alarm clock has run down. -/
def isDue (loop : EventLoop) : Bool := loop.alarm.any fun due => decide (due ≤ loop.clock)

/-- A bound on the steps until the loop rests. A signal may still have to be delivered, to
interrupt `epoll_wait`, and to be reported and received in a round of its own. -/
def work (loop : EventLoop) : Nat :=
  7 * loop.isDue.toNat + 6 * loop.inbox.pending.length + 3 * loop.inbox.pipe.raised.toNat +
    2 * loop.interrupted.toNat + loop.place.work

theorem work_raise (loop : EventLoop) (signal : UInt8) :
    (loop.inbox.raise signal).pending.length ≤ loop.inbox.pending.length + 1 ∧
      (loop.inbox.raise signal).pipe = loop.inbox.pipe := by
  refine ⟨?_, SignalPipe.raise_pipe⟩
  unfold SignalPipe.raise
  split
  · exact Nat.le_succ _
  · simp

theorem isDue_iff {loop : EventLoop} :
    loop.isDue = true ↔ ∃ due ∈ loop.alarm, due ≤ loop.clock := by
  unfold isDue
  cases loop.alarm with
  | none => simp
  | some due => simp

theorem toNat_isDue_finished (loop : EventLoop) (timeout stopServer : Bool) :
    (loop.finished timeout stopServer).isDue.toNat ≤ loop.isDue.toNat := by
  cases timeout with
  | true =>
      have later : (loop.finished true stopServer).isDue = false := by
        refine Bool.eq_false_iff.mpr fun due => ?_
        obtain ⟨due, armed, late⟩ := isDue_iff.mp due
        cases armed
        change loop.clock + TIMESLOT ≤ loop.clock at late
        unfold TIMESLOT at late
        omega
      rw [later]
      exact Nat.zero_le _
  | false => exact Nat.le_refl _

theorem work_finished (loop : EventLoop) (timeout stopServer : Bool) :
    (loop.finished timeout stopServer).place.work = 0 := by
  cases stopServer <;> rfl

end EventLoop

namespace LoopingClients

variable {looping : LoopingClients} {step : LoopStep}

theorem work_exec (enabled : looping.Enabled setup step) (internal : looping.Internal setup step) :
    (exec setup capacity looping step).loop.work < looping.loop.work := by
  unfold EventLoop.work
  cases step with
  | signal signal => exact internal.elim
  | second => exact internal.elim
  | expire =>
      have due : looping.loop.isDue = true := EventLoop.isDue_iff.mpr enabled
      have disarmed : (exec setup capacity looping .expire).loop.isDue = false := rfl
      obtain ⟨pending, pipe⟩ := looping.loop.work_raise SIGALRM
      rw [due, disarmed, Bool.toNat_true, Bool.toNat_false]
      unfold exec EventLoop.kernel
      dsimp only
      rw [pipe]
      omega
  | deliver signal =>
      have pending : signal ∈ looping.loop.inbox.pending := enabled
      have positive := List.length_pos_of_mem pending
      have shorter : (exec setup capacity looping (.deliver signal)).loop.inbox.pending.length =
          looping.loop.inbox.pending.length - 1 := List.length_erase_of_mem pending
      have raised :=
        Bool.toNat_le (exec setup capacity looping (.deliver signal)).loop.inbox.pipe.raised
      have interrupted :=
        Bool.toNat_le (exec setup capacity looping (.deliver signal)).loop.interrupted
      have due : (exec setup capacity looping (.deliver signal)).loop.isDue =
          looping.loop.isDue := rfl
      have place : (exec setup capacity looping (.deliver signal)).loop.place =
          looping.loop.place := rfl
      rw [due, place, shorter]
      omega
  | poll events =>
      obtain ⟨polling, -, -, readable⟩ := enabled
      have due : (exec setup capacity looping (.poll events)).loop.isDue =
          looping.loop.isDue := rfl
      have cleared : (exec setup capacity looping (.poll events)).loop.interrupted = false := rfl
      have place : (exec setup capacity looping (.poll events)).loop.place.work =
          events.length + 1 := rfl
      rw [due, cleared, place, polling]
      rcases internal with ⟨rfl, interrupted⟩ | rfl
      · have inbox : (exec setup capacity looping (.poll [])).loop.inbox = looping.loop.inbox :=
          rfl
        rw [inbox, interrupted]
        simp only [Bool.toNat_true, Bool.toNat_false, List.length_nil, LoopPlace.work]
        omega
      · have raised := (readable _ List.mem_cons_self rfl).2
        have reported : (exec setup capacity looping (.poll [⟨setup.pipefd0, true⟩])).loop.inbox =
            looping.loop.inbox.report := if_pos List.mem_cons_self
        have quiet : looping.loop.inbox.report.pipe.raised = false := rfl
        have same : looping.loop.inbox.report.pending = looping.loop.inbox.pending := rfl
        rw [reported, quiet, same, raised]
        simp only [Bool.toNat_true, Bool.toNat_false, List.length_singleton, LoopPlace.work]
        omega
  | event answers =>
      obtain ⟨event, next, -⟩ := enabled
      obtain ⟨events, place⟩ := EventLoop.exists_handling next
      have inbox : (exec setup capacity looping (.event answers)).loop.inbox.pending =
            looping.loop.inbox.pending ∧
          (exec setup capacity looping (.event answers)).loop.inbox.pipe.raised =
            looping.loop.inbox.pipe.raised := by
        rcases Decidable.em (event.fd = setup.pipefd0 ∧ event.epollin = true) with pipe | other
        · rw [(exec_event_signals place pipe.1 pipe.2).1]
          exact ⟨rfl, rfl⟩
        · rw [(exec_event_other place other).1]
          exact ⟨rfl, rfl⟩
      have same : (exec setup capacity looping (.event answers)).loop.isDue =
            looping.loop.isDue ∧
          (exec setup capacity looping (.event answers)).loop.interrupted =
            looping.loop.interrupted := by
        rw [exec_event place]
        exact ⟨rfl, rfl⟩
      have handled : (exec setup capacity looping (.event answers)).loop.place =
          .handling events := by
        rw [exec_event place]
        rfl
      rw [inbox.1, inbox.2, same.1, same.2, handled, place]
      simp only [LoopPlace.work, List.length_cons]
      omega
  | finish =>
      have place : looping.loop.place = .handling [] := enabled
      have due := looping.loop.toNat_isDue_finished looping.state.timeout
        looping.finish.state.stopServer
      have finished := looping.loop.work_finished looping.state.timeout
        looping.finish.state.stopServer
      have loop : (exec setup capacity looping .finish).loop =
        looping.loop.finished looping.state.timeout looping.finish.state.stopServer := rfl
      have inbox : (looping.loop.finished looping.state.timeout
        looping.finish.state.stopServer).inbox = looping.loop.inbox := rfl
      have interrupted : (looping.loop.finished looping.state.timeout
        looping.finish.state.stopServer).interrupted = looping.loop.interrupted := rfl
      rw [loop, inbox, interrupted, finished, place]
      simp only [LoopPlace.work, List.length_nil]
      omega

end LoopingClients

/-- Whatever signals arrive and whatever the clients do, the server comes to rest within the
steps that are left as soon as both pause. At rest it has left its loop, or it is in
`epoll_wait` with its alarm set, and it has not been sent SIGTERM. -/
theorem timeoutServer_comesToRest (setup : Setup)
    (few : ∃ bound, ∀ fd, setup.own fd = true → fd < bound) (capacity : Nat)
    (small : capacity ≤ SignalPipe.bufferSize) (now : Int) (steps : List LoopStep)
    (run : AllowedRun (fun looping step => (looping.Enabled setup step ∧
      looping.InTable setup step) ∧ looping.Reliable capacity step)
      (LoopingClients.exec setup capacity) (LoopingClients.start now) steps)
    (fuel : Nat) (enough : steps.length ≤ fuel) :
    ∃ final, runOps (LoopingServer.exec setup capacity fuel) (LoopingServer.start setup now)
        steps = .ok final ∧
      (∀ further, AllowedRun (fun looping step => looping.Enabled setup step ∧
          looping.Internal setup step) (LoopingClients.exec setup capacity)
          (steps.foldl (LoopingClients.exec setup capacity) (LoopingClients.start now)) further →
        further.length ≤ final.loop.work) ∧
      ((steps.foldl (LoopingClients.exec setup capacity) (LoopingClients.start now)).Settled
          setup → final.loop.place ≠ .left →
        final.loop.place = .polling ∧ (∃ due ∈ final.loop.alarm, final.loop.clock < due) ∧
          .signal SIGTERM ∉ steps) := by
  obtain ⟨final, done, mirrors⟩ := runOps_mirrors (run.mono fun _ _ all => all.1) enough
  refine ⟨final, done, fun further internal => ?_, fun settled stays => ?_⟩
  · rw [mirrors.loop]
    have uses : ∀ (looping : LoopingClients) (step : LoopStep), True →
        looping.Enabled setup step ∧ looping.Internal setup step →
          True ∧ (looping.exec setup capacity step).loop.work < looping.loop.work :=
      fun _ _ _ both => ⟨trivial, LoopingClients.work_exec both.1 both.2⟩
    exact @AllowedRun.length_le _ _ _ _ _ (fun looping => looping.loop.work) uses _ _ trivial
      internal
  · rw [mirrors.loop] at stays ⊢
    have kept : Throughout (fun looping => LoopingClients.Regular setup looping ∧
        LoopingClients.Attentive setup capacity looping ∧ looping.Ticking)
        (LoopingClients.exec setup capacity) (LoopingClients.start now) steps :=
      run.throughout (fun _ _ invariant all => ⟨invariant.1.exec all.1.1,
          invariant.2.1.exec small all.1.1, invariant.2.2.exec all.1.1 all.2⟩)
        ⟨LoopingClients.regular_start setup now,
          LoopingClients.attentive_start setup capacity now, .inl rfl⟩
    obtain ⟨regular, attentive, ticking⟩ := throughout_iff.mp kept steps List.prefix_rfl
    obtain ⟨polling, armed, goesOn⟩ :=
      attentive.rests ticking (settled.rests regular few) stays
    refine ⟨polling, armed, fun asked => goesOn ?_⟩
    exact run.since (fun _ _ => .inr SignalPipe.holds_raise)
      (fun _ _ stopping all => LoopingClients.Stopping.exec stopping all.1.1 all.2) asked

/-- A client connects, and the server is sent SIGTERM. -/
def sampleStop : List LoopStep :=
  [.poll [⟨3, true⟩], .event ⟨7, 1, 0, .bytes []⟩, .signal SIGTERM, .finish, .deliver SIGTERM,
    .poll [], .finish, .poll [⟨5, true⟩], .event ⟨0, 0, 0, .bytes []⟩, .finish]

theorem timeoutServer_comesToRest_sampleStop :
    ∃ final, runOps (LoopingServer.exec sampleSetup 8 10) (LoopingServer.start sampleSetup 0)
        sampleStop = .ok final ∧
      (∀ further, AllowedRun (fun looping step => looping.Enabled sampleSetup step ∧
          looping.Internal sampleSetup step) (LoopingClients.exec sampleSetup 8)
          (sampleStop.foldl (LoopingClients.exec sampleSetup 8) (LoopingClients.start 0)) further →
        further.length ≤ final.loop.work) ∧
      ((sampleStop.foldl (LoopingClients.exec sampleSetup 8) (LoopingClients.start 0)).Settled
          sampleSetup → final.loop.place ≠ .left →
        final.loop.place = .polling ∧ (∃ due ∈ final.loop.alarm, final.loop.clock < due) ∧
          .signal SIGTERM ∉ sampleStop) :=
  timeoutServer_comesToRest sampleSetup
    ⟨7, fun _ own => Int.lt_add_one_of_le (of_decide_eq_true own).2⟩ 8 (by decide) 0 sampleStop
    (by decide) 10 (by decide)

/-! ## Idle clients -/

namespace LoopingClients

variable {looping : LoopingClients} {step : LoopStep}

/-- A second only passes when the loop is at rest. -/
def Prompt (looping : LoopingClients) : LoopStep → Prop
  | .second => looping.loop.Rests
  | .signal _ => True
  | .expire => True
  | .deliver _ => True
  | .poll _ => True
  | .event _ => True
  | .finish => True

instance (looping : LoopingClients) : ∀ step, Decidable (looping.Prompt step)
  | .second => inferInstanceAs (Decidable looping.loop.Rests)
  | .signal _ => inferInstanceAs (Decidable True)
  | .expire => inferInstanceAs (Decidable True)
  | .deliver _ => inferInstanceAs (Decidable True)
  | .poll _ => inferInstanceAs (Decidable True)
  | .event _ => inferInstanceAs (Decidable True)
  | .finish => inferInstanceAs (Decidable True)

/-- The next tick comes before any client has been silent for `4 * TIMESLOT`. -/
structure Timely (looping : LoopingClients) : Prop where
  alarm : ∀ due ∈ looping.loop.alarm,
    looping.loop.clock ≤ due ∧ due ≤ looping.loop.clock + TIMESLOT ∧
      ∀ client ∈ looping.state.clients, due < client.lastSeen + 4 * TIMESLOT
  clients : looping.loop.alarm = none → ∀ client ∈ looping.state.clients,
    looping.loop.clock < client.lastSeen + 4 * TIMESLOT

/-- What is said of each client so far holds of the clients behind an event. -/
theorem mem_handleEvent {state : Clients} {event : EpollEvent} {answers : Answers}
    {client : Client} (member : client ∈ (state.handleEvent setup (event, answers)).clients) :
    client ∈ state.clients ∨ client.lastSeen = answers.now := by
  unfold Clients.handleEvent at member
  dsimp only at member
  split at member
  · rcases List.mem_cons.mp member with rfl | before
    · exact .inr rfl
    · exact .inl before
  · split at member
    · unfold Clients.receiveSignals at member
      split at member <;> exact .inl member
    · split at member
      · unfold Clients.receive at member
        split at member
        · exact .inl member
        · exact .inl (List.mem_of_mem_filter member)
        · exact .inl (List.mem_of_mem_filter member)
        · obtain ⟨before, present, rfl⟩ := List.mem_map.mp member
          unfold Client.seen
          split
          · exact .inr rfl
          · exact .inl present
      · exact .inl member

theorem Timely.exec (timely : Timely looping) (enabled : looping.Enabled setup step)
    (rests : step = .second →
      ∃ due ∈ looping.loop.alarm, looping.loop.clock < due) :
    Timely (exec setup capacity looping step) := by
  cases step with
  | signal signal => exact ⟨timely.alarm, timely.clients⟩
  | expire =>
      obtain ⟨due, armed, -⟩ := enabled
      refine ⟨nofun, fun _ client member => ?_⟩
      obtain ⟨early, -, soon⟩ := timely.alarm due armed
      exact Int.lt_of_le_of_lt early (soon client member)
  | deliver signal => exact ⟨timely.alarm, timely.clients⟩
  | second =>
      obtain ⟨due, armed, early⟩ := rests rfl
      constructor
      · intro other same
        cases armed.symm.trans same
        obtain ⟨-, near, soon⟩ := timely.alarm due armed
        refine ⟨early, ?_, soon⟩
        show due ≤ looping.loop.clock + 1 + TIMESLOT
        omega
      · intro disarmed
        cases armed.symm.trans disarmed
  | poll events => exact ⟨timely.alarm, timely.clients⟩
  | event answers =>
      obtain ⟨event, next, -⟩ := enabled
      obtain ⟨events, place⟩ := EventLoop.exists_handling next
      rw [exec_event place]
      constructor
      · intro due armed
        obtain ⟨early, near, soon⟩ := timely.alarm due armed
        refine ⟨early, near, fun client member => ?_⟩
        rcases mem_handleEvent member with before | now
        · exact soon client before
        · rw [now]
          show due < looping.loop.clock + 4 * TIMESLOT
          unfold TIMESLOT at near ⊢
          omega
      · intro disarmed client member
        rcases mem_handleEvent member with before | now
        · exact timely.clients disarmed client before
        · rw [now]
          show looping.loop.clock < looping.loop.clock + 4 * TIMESLOT
          unfold TIMESLOT
          omega
  | finish =>
      show Timely looping.finish
      obtain ⟨-, clock, -⟩ := finish_clock looping
      cases timeout : looping.state.timeout with
      | true =>
          have armed : looping.finish.loop.alarm = some (looping.loop.clock + TIMESLOT) :=
            if_pos timeout
          refine ⟨fun due same => ?_, fun disarmed => nomatch armed.symm.trans disarmed⟩
          cases armed.symm.trans same
          rw [clock]
          refine ⟨by unfold TIMESLOT; omega, Int.le_refl _, fun client member => ?_⟩
          have fresh := (mem_finish member).2 timeout
          unfold TIMESLOT at fresh ⊢
          omega
      | false =>
          have same : looping.finish.loop.alarm = looping.loop.alarm :=
            if_neg (Bool.eq_false_iff.mp timeout)
          constructor
          · intro due armed
            rw [same] at armed
            obtain ⟨early, near, soon⟩ := timely.alarm due armed
            rw [clock]
            exact ⟨early, near, fun client member => soon client (mem_finish member).1⟩
          · intro disarmed client member
            rw [same] at disarmed
            rw [clock]
            exact timely.clients disarmed client (mem_finish member).1

theorem left_exec (left : looping.loop.place = .left) (enabled : looping.Enabled setup step) :
    (exec setup capacity looping step).loop.place = .left := by
  cases step with
  | signal signal => exact left
  | expire => exact left
  | deliver signal => exact left
  | second => exact left
  | poll events => exact nomatch left.symm.trans enabled.1
  | event answers =>
      obtain ⟨event, next, -⟩ := enabled
      obtain ⟨events, place⟩ := EventLoop.exists_handling next
      exact nomatch left.symm.trans place
  | finish => exact nomatch left.symm.trans enabled

/-- What holds of every state if signals are not lost and the loop is prompt. -/
structure Watchful (setup : Setup) (capacity : Nat) (looping : LoopingClients) : Prop where
  regular : Regular setup looping
  attentive : Attentive setup capacity looping
  ticking : Ticking looping
  timely : looping.loop.place = .left ∨ Timely looping

theorem watchful_start (setup : Setup) (capacity : Nat) (now : Int) :
    Watchful setup capacity (start now) where
  regular := regular_start setup now
  attentive := attentive_start setup capacity now
  ticking := .inl rfl
  timely := by
    refine .inr ⟨fun due armed => ?_, nofun⟩
    cases armed
    exact ⟨by unfold start EventLoop.start TIMESLOT; dsimp only; omega, Int.le_refl _, nofun⟩

theorem Watchful.exec (watchful : Watchful setup capacity looping)
    (small : capacity ≤ SignalPipe.bufferSize) (enabled : looping.Enabled setup step)
    (reliable : looping.Reliable capacity step) (prompt : looping.Prompt step) :
    Watchful setup capacity (exec setup capacity looping step) where
  regular := watchful.regular.exec enabled
  attentive := watchful.attentive.exec small enabled
  ticking := watchful.ticking.exec enabled reliable
  timely := by
    rcases watchful.timely with left | timely
    · exact .inl (left_exec left enabled)
    · rcases Decidable.em (looping.loop.place = .left) with left | stays
      · exact .inl (left_exec left enabled)
      · refine .inr (timely.exec enabled fun second => ?_)
        subst second
        exact (watchful.attentive.rests watchful.ticking prompt stays).2.1

end LoopingClients

/-- If no signal is lost, `users` has an entry for every connection and the server is done with
everything whenever a second passes, a connection that has been silent for `4 * TIMESLOT` is
not open any more. -/
theorem timeoutServer_closesIdle (setup : Setup) (capacity : Nat)
    (small : capacity ≤ SignalPipe.bufferSize) (now : Int) (steps : List LoopStep)
    (run : AllowedRun (fun looping step => (looping.Enabled setup step ∧
      looping.InTable setup step) ∧ looping.Reliable capacity step ∧ looping.Prompt step)
      (LoopingClients.exec setup capacity) (LoopingClients.start now) steps) (fuel : Nat) (enough : steps.length ≤ fuel) :
    ∃ final, runOps (LoopingServer.exec setup capacity fuel) (LoopingServer.start setup now)
        steps = .ok final ∧
      (final.loop.place ≠ .left → ∀ fd, final.server.world.descriptors.isOpen fd = true →
        setup.own fd = false → final.loop.clock < final.loop.heard fd + 4 * TIMESLOT) := by
  obtain ⟨final, done, mirrors⟩ := runOps_mirrors (run.mono fun _ _ all => all.1) enough
  have kept : Throughout (LoopingClients.Watchful setup capacity)
      (LoopingClients.exec setup capacity) (LoopingClients.start now) steps :=
    run.throughout (fun _ _ watchful all => watchful.exec small all.1.1 all.2.1 all.2.2)
      (LoopingClients.watchful_start setup capacity now)
  have watchful := throughout_iff.mp kept steps List.prefix_rfl
  refine ⟨final, done, fun stays fd isOpen notOwn => ?_⟩
  rw [mirrors.loop] at stays ⊢
  have timely := watchful.timely.resolve_left stays
  rcases (mirrors.agreement.tables.isOpen fd).mp isOpen with own | member
  · exact nomatch own.symm.trans notOwn
  · obtain ⟨client, present, rfl⟩ := List.mem_map.mp member
    rw [← watchful.regular.heard client present]
    cases alarm : (steps.foldl (LoopingClients.exec setup capacity)
        (LoopingClients.start now)).loop.alarm with
    | none => exact timely.clients alarm client present
    | some due =>
        obtain ⟨early, -, soon⟩ := timely.alarm due alarm
        exact Int.lt_of_le_of_lt early (soon client present)

/-- A client connects and is silent for two ticks. -/
def sampleSilence : List LoopStep := sampleLoop ++ sampleTick

theorem timeoutServer_closesIdle_sampleSilence :
    ∃ final, runOps (LoopingServer.exec sampleSetup 8 23) (LoopingServer.start sampleSetup 0)
        sampleSilence = .ok final ∧
      (final.loop.place ≠ .left → ∀ fd, final.server.world.descriptors.isOpen fd = true →
        sampleSetup.own fd = false → final.loop.clock < final.loop.heard fd + 4 * TIMESLOT) :=
  timeoutServer_closesIdle sampleSetup 8 (by decide) 0 sampleSilence (by decide) 23 (by decide)

/-- The step closes the connection: its peer has closed it or it has failed, or the tick
finds it silent for `3 * TIMESLOT`. -/
def LoopingServer.Closes (looping : LoopingServer) (fd : Fd) : LoopStep → Prop
  | .event answers => ∃ event ∈ looping.loop.next, event.fd = fd ∧ event.epollin = true ∧
      (answers.received = .failed false ∨ answers.received = .bytes [])
  | .finish => looping.server.world.timeout = true ∧
      looping.loop.heard fd + 3 * TIMESLOT ≤ looping.loop.clock
  | .signal _ => False
  | .expire => False
  | .deliver _ => False
  | .second => False
  | .poll _ => False

namespace Clients

variable {state : Clients} {event : EpollEvent} {answers : Answers} {fd : Fd}

theorem not_mem_fds_drop (other : Fd) (member : fd ∈ state.fds) :
    fd ∉ (state.drop other).fds ↔ other = fd := by
  constructor
  · intro dropped
    refine Decidable.byContradiction fun apart => dropped ?_
    obtain ⟨client, present, rfl⟩ := List.mem_map.mp member
    exact List.mem_map_of_mem (List.mem_filter.mpr ⟨present, decide_eq_true (Ne.symm apart)⟩)
  · rintro rfl kept
    obtain ⟨client, present, same⟩ := List.mem_map.mp kept
    exact of_decide_eq_true (List.mem_filter.mp present).2 same

theorem fds_seen (other : Fd) (now : Int) :
    (state.clients.map fun client => client.seen other now).map Client.fd = state.fds := by
  rw [List.map_map]
  refine List.map_congr_left fun client _ => ?_
  show (client.seen other now).fd = client.fd
  unfold Client.seen
  split <;> rfl

/-- Only the end of the stream and errors drop a client. -/
theorem not_mem_fds_receive (state : Clients) (other : Fd) (answers : Answers)
    (member : fd ∈ state.fds) :
    fd ∉ (state.receive other answers).fds ↔
      other = fd ∧ (answers.received = .failed false ∨ answers.received = .bytes []) := by
  unfold receive
  cases received : answers.received with
  | failed eagain =>
      cases eagain with
      | true => simp [member]
      | false => simp [not_mem_fds_drop other member]
  | bytes data =>
      cases data with
      | nil => simp [not_mem_fds_drop other member]
      | cons byte data =>
          have kept : fd ∈ ({ state with
              clients := state.clients.map fun client => client.seen other answers.now } :
              Clients).fds := by
            show fd ∈ (state.clients.map fun client => client.seen other answers.now).map Client.fd
            rw [fds_seen]
            exact member
          simp [kept]

theorem not_mem_fds_handleEvent (member : fd ∈ state.fds) (notListenfd : fd ≠ setup.listenfd)
    (notPipefd : fd ≠ setup.pipefd0) :
    fd ∉ (state.handleEvent setup (event, answers)).fds ↔ event.fd = fd ∧ event.epollin = true ∧
      (answers.received = .failed false ∨ answers.received = .bytes []) := by
  unfold handleEvent
  dsimp only
  split
  · next listening =>
      refine ⟨fun dropped => absurd (List.mem_cons_of_mem _ member) dropped, fun closes => ?_⟩
      exact absurd (closes.1.symm.trans listening) notListenfd
  · split
    · next signals =>
        have kept : ({ state with clock := answers.now }.receiveSignals answers.received).fds =
            state.fds := by
          unfold receiveSignals
          split <;> rfl
        rw [kept]
        refine ⟨fun dropped => absurd member dropped, fun closes => ?_⟩
        exact absurd (closes.1.symm.trans signals.1) notPipefd
    · split
      · next readable =>
          rw [not_mem_fds_receive { state with clock := answers.now } event.fd answers member]
          exact and_congr_right fun _ => ⟨fun ends => ⟨readable, ends⟩, And.right⟩
      · next quiet =>
          exact ⟨fun dropped => absurd member dropped, fun closes => absurd closes.2.1 quiet⟩

end Clients

namespace Mirrors

variable {looping : LoopingServer} {clients : LoopingClients} {step : LoopStep} {fd : Fd}

theorem not_mem_fds_finish (mirrors : Mirrors setup looping clients)
    (regular : clients.Regular setup) (member : fd ∈ clients.state.fds) :
    fd ∉ clients.finish.state.fds ↔ clients.state.timeout = true ∧
      clients.loop.heard fd + 3 * TIMESLOT ≤ clients.loop.clock := by
  cases timeout : clients.state.timeout with
  | false =>
      have same : clients.finish.state = clients.state := if_neg (Bool.eq_false_iff.mp timeout)
      rw [same]
      exact ⟨fun dropped => absurd member dropped, fun closes => nomatch closes.1⟩
  | true =>
      have kept : clients.finish.state.fds = (clients.state.clients.filter fun client =>
          clients.loop.clock < client.lastSeen + 3 * TIMESLOT).map Client.fd := by
        show ((ite _ _ _ : Clients).clients.map Client.fd) = _
        rw [if_pos timeout]
        rfl
      rw [kept]
      obtain ⟨client, present, rfl⟩ := List.mem_map.mp member
      rw [← regular.heard client present]
      constructor
      · intro dropped
        refine ⟨rfl, Int.not_lt.mp fun fresh => dropped ?_⟩
        exact List.mem_map_of_mem (List.mem_filter.mpr ⟨present, decide_eq_true fresh⟩)
      · rintro ⟨-, silent⟩ kept
        obtain ⟨other, otherPresent, same⟩ := List.mem_map.mp kept
        obtain ⟨otherMember, fresh⟩ := List.mem_filter.mp otherPresent
        obtain rfl : other = client :=
          List.inj_on_of_nodup_map mirrors.agreement.tables.distinct otherMember present same
        exact absurd (of_decide_eq_true fresh) (Int.not_lt.mpr silent)

theorem closes_iff (mirrors : Mirrors setup looping clients) (regular : clients.Regular setup)
    (enabled : clients.Enabled setup step) (member : fd ∈ clients.state.fds) :
    fd ∉ (clients.exec setup capacity step).state.fds ↔ looping.Closes fd step := by
  have notOwn := mirrors.agreement.tables.notOwn fd member
  cases step with
  | signal signal => exact ⟨fun dropped => absurd member dropped, nofun⟩
  | expire => exact ⟨fun dropped => absurd member dropped, nofun⟩
  | deliver signal => exact ⟨fun dropped => absurd member dropped, nofun⟩
  | second => exact ⟨fun dropped => absurd member dropped, nofun⟩
  | poll events => exact ⟨fun dropped => absurd member dropped, nofun⟩
  | event answers =>
      obtain ⟨event, next, -⟩ := enabled
      obtain ⟨events, place⟩ := EventLoop.exists_handling next
      have notListenfd : fd ≠ setup.listenfd := by
        rintro rfl
        exact nomatch setup.listenfd_own.symm.trans notOwn
      have notPipefd : fd ≠ setup.pipefd0 := by
        rintro rfl
        exact nomatch setup.pipefd0_own.symm.trans notOwn
      rw [LoopingClients.exec_event place, Clients.not_mem_fds_handleEvent member notListenfd
        notPipefd]
      unfold LoopingServer.Closes
      dsimp only
      rw [mirrors.loop]
      constructor
      · rintro ⟨rfl, readable, ends⟩
        unfold EventLoop.answersFor at ends
        dsimp only at ends
        rw [if_neg notPipefd] at ends
        exact ⟨event, next, rfl, readable, ends⟩
      · rintro ⟨other, otherNext, rfl, readable, ends⟩
        cases Option.some.inj ((Option.mem_def.mp next).symm.trans (Option.mem_def.mp otherNext))
        unfold EventLoop.answersFor
        dsimp only
        rw [if_neg notPipefd]
        exact ⟨rfl, readable, ends⟩
  | finish =>
      unfold LoopingServer.Closes
      dsimp only
      rw [mirrors.loop, mirrors.agreement.timeout]
      exact mirrors.not_mem_fds_finish regular member

end Mirrors

/-- As long as `users` has an entry for every connection, a step closes one exactly if its peer
has closed it, or it has failed, or the tick finds it silent for `3 * TIMESLOT`. -/
theorem timeoutServer_closes_iff (setup : Setup) (capacity : Nat) (now : Int)
    (steps : List LoopStep) (step : LoopStep)
    (run : AllowedRun (fun looping step => looping.Enabled setup step ∧ looping.InTable setup step)
      (LoopingClients.exec setup capacity) (LoopingClients.start now) (steps ++ [step]))
    (fuel : Nat) (enough : steps.length < fuel) :
    ∃ before after, runOps (LoopingServer.exec setup capacity fuel)
        (LoopingServer.start setup now) steps = .ok before ∧
      before.exec setup capacity fuel step = .ok after ∧
      ∀ fd, before.server.world.descriptors.isOpen fd = true → setup.own fd = false →
        (after.server.world.descriptors.isOpen fd = false ↔ before.Closes fd step) := by
  obtain ⟨first, ⟨enabled, inTable⟩, -⟩ := allowedRun_append_iff.mp run
  obtain ⟨before, done, mirrors⟩ := runOps_mirrors first (Nat.le_of_lt enough)
  have kept : Throughout (LoopingClients.Regular setup) (LoopingClients.exec setup capacity)
      (LoopingClients.start now) steps :=
    first.throughout (fun _ _ regular both => regular.exec both.1)
      (LoopingClients.regular_start setup now)
  have regular := throughout_iff.mp kept steps List.prefix_rfl
  have few := (LoopingClients.start now).length_steps setup capacity steps
  obtain ⟨after, executed, later⟩ := mirrors.exec regular enabled inTable
    (Nat.le_trans few (Nat.le_trans (Nat.le_of_eq (Nat.zero_add _)) (Nat.le_of_lt enough)))
  refine ⟨before, after, done, executed, fun fd isOpen notOwn => ?_⟩
  have member : fd ∈ (steps.foldl (LoopingClients.exec setup capacity)
      (LoopingClients.start now)).state.fds :=
    ((mirrors.agreement.tables.isOpen fd).mp isOpen).resolve_left
      fun own => nomatch own.symm.trans notOwn
  rw [← mirrors.closes_iff regular enabled member, ← Bool.not_eq_true]
  refine not_congr ((later.agreement.tables.isOpen fd).trans ?_)
  rw [notOwn]
  exact or_iff_right nofun

/-- The third tick closes the client. -/
theorem timeoutServer_closes_iff_sampleSilence :
    ∃ before after, runOps (LoopingServer.exec sampleSetup 8 33)
        (LoopingServer.start sampleSetup 0) (sampleSilence ++ sampleTick.dropLast) = .ok before ∧
      before.exec sampleSetup 8 33 .finish = .ok after ∧
      ∀ fd, before.server.world.descriptors.isOpen fd = true → sampleSetup.own fd = false →
        (after.server.world.descriptors.isOpen fd = false ↔ before.Closes fd .finish) :=
  timeoutServer_closes_iff sampleSetup 8 0 (sampleSilence ++ sampleTick.dropLast) .finish
    (by decide) 33 (by decide)

end HPLinuxServer.Execution
