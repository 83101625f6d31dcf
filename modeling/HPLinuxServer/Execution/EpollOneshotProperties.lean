import HPLinuxServer.Concurrency.ThreadTable
import HPLinuxServer.Execution.EpollOneshot
import HPLinuxServer.Refinement.Runs

/-!
# The one-shot server: one thread for each descriptor

A disarmed descriptor is held by the rest of the batch, by the main loop or by a thread. A
step hands it from one to the next, or arms or closes it, as long as a thread has read the
variable when the main loop leaves the block that declares it.
-/

set_option autoImplicit false

namespace HPLinuxServer.Execution

open Concurrency Refinement

/-- How many hold a descriptor of this status. -/
def OneshotStatus.due : OneshotStatus → Nat
  | closed => 0
  | armed => 0
  | disarmed => 1

theorem OneshotStatus.due_le (status : OneshotStatus) : status.due ≤ 1 := by
  cases status <;> decide

theorem OneshotStatus.disarmed_of_due {status : OneshotStatus} (positive : 0 < status.due) :
    status = .disarmed := by
  cases status with
  | closed => exact nomatch positive
  | armed => exact nomatch positive
  | disarmed => rfl

/-- The thread has read both descriptors. -/
def OneshotWorker.hasRead : OneshotWorker → Bool
  | created _ => false
  | reading _ _ => false
  | working _ _ _ => true
  | ended => true

namespace OneshotServer

/-- All events of a batch are about something to read. -/
def Readable : OneshotStep → Prop
  | .epollWait batch => ∀ report ∈ batch, report.epollin = true
  | _ => True

/-- Every thread that is asked for is created, and every thread has read both descriptors
when the main loop leaves the block. -/
def HandsOver (server : OneshotServer) : OneshotStep → Prop
  | .create started => started = true
  | .leave => ∀ worker ∈ server.workers, worker.hasRead = true
  | _ => True

instance : ∀ step, Decidable (Readable step)
  | .epollWait _ => inferInstanceAs (Decidable (∀ _ ∈ _, _))
  | .next _ => inferInstanceAs (Decidable True)
  | .storeSockfd => inferInstanceAs (Decidable True)
  | .create _ => inferInstanceAs (Decidable True)
  | .leave => inferInstanceAs (Decidable True)
  | .overwrite _ => inferInstanceAs (Decidable True)
  | .readSockfd _ => inferInstanceAs (Decidable True)
  | .readEpollfd _ => inferInstanceAs (Decidable True)
  | .recv _ _ => inferInstanceAs (Decidable True)

instance (server : OneshotServer) : ∀ step, Decidable (HandsOver server step)
  | .epollWait _ => inferInstanceAs (Decidable True)
  | .next _ => inferInstanceAs (Decidable True)
  | .storeSockfd => inferInstanceAs (Decidable True)
  | .create _ => inferInstanceAs (Decidable (_ = _))
  | .leave => inferInstanceAs (Decidable (∀ _ ∈ _, _))
  | .overwrite _ => inferInstanceAs (Decidable True)
  | .readSockfd _ => inferInstanceAs (Decidable True)
  | .readEpollfd _ => inferInstanceAs (Decidable True)
  | .recv _ _ => inferInstanceAs (Decidable True)

/-- Each thread works on the descriptor of its event, each disarmed descriptor has one
holder, and no two threads run on one descriptor. -/
def HandedOff (server : OneshotServer) : Prop :=
  (∀ worker ∈ server.workers, worker.OnOwn server.epollfd) ∧
    (∀ fd, server.status fd = .disarmed → server.holders fd = 1) ∧
    ∀ fd, server.workers.countP (OneshotWorker.runsOn fd) ≤ 1

/-- What holds between any two steps. -/
structure Orderly (server : OneshotServer) : Prop where
  own : ∀ worker ∈ server.workers, worker.OnOwn server.epollfd
  one : ∀ fd, server.holders fd = (server.status fd).due
  unread : ∀ worker ∈ server.workers, worker.hasRead = false → server.main = .created
  meant : ∀ event, .created event ∈ server.workers → server.cell.sockfd = event
  stored : ∀ event, server.main = .stored event → server.cell.sockfd = event
  told : server.main ≠ .looping → server.cell.epollfd = server.epollfd
  readable : ∀ report ∈ server.pending, report.epollin = true

variable {server : OneshotServer} {worker fd : Nat} {place : OneshotWorker}

theorem orderly_init (listenfd epollfd : Nat) (leftover : Fds) :
    Orderly (init listenfd epollfd leftover) where
  own := nofun
  one := by
    intro fd
    unfold init
    dsimp only
    split
    · rfl
    · rfl
  unread := nofun
  meant := nofun
  stored := nofun
  told := absurd rfl
  readable := nofun

theorem Orderly.handedOff (orderly : Orderly server) : HandedOff server := by
  refine ⟨orderly.own, fun fd disarmed => ?_, fun fd => ?_⟩
  · rw [orderly.one, disarmed]
    rfl
  · have one := orderly.one fd
    have few := (server.status fd).due_le
    unfold holders at one
    omega

/-! ## Where the threads are -/

theorem exists_storing (storing : server.main.isStoring = true) :
    ∃ event, server.main = .storing event := by
  cases here : server.main with
  | storing event => exact ⟨event, rfl⟩
  | looping => exact nomatch here ▸ storing
  | stored event => exact nomatch here ▸ storing
  | created => exact nomatch here ▸ storing

theorem exists_stored (stored : server.main.isStored = true) :
    ∃ event, server.main = .stored event := by
  cases here : server.main with
  | stored event => exact ⟨event, rfl⟩
  | looping => exact nomatch here ▸ stored
  | storing event => exact nomatch here ▸ stored
  | created => exact nomatch here ▸ stored

theorem exists_created (created : server.workers[worker]?.any OneshotWorker.isCreated = true) :
    ∃ event, server.workers[worker]? = some (.created event) := by
  obtain ⟨place, found, here⟩ := (Option.any_eq_true _ _).mp created
  cases place with
  | created event => exact ⟨event, found⟩
  | reading event sockfd => exact nomatch here
  | working event sockfd epollfd => exact nomatch here
  | ended => exact nomatch here

theorem exists_reading (reading : server.workers[worker]?.any OneshotWorker.isReading = true) :
    ∃ event sockfd, server.workers[worker]? = some (.reading event sockfd) := by
  obtain ⟨place, found, here⟩ := (Option.any_eq_true _ _).mp reading
  cases place with
  | reading event sockfd => exact ⟨event, sockfd, found⟩
  | created event => exact nomatch here
  | working event sockfd epollfd => exact nomatch here
  | ended => exact nomatch here

theorem exists_working (working : server.workers[worker]?.any OneshotWorker.isWorking = true) :
    ∃ event sockfd epollfd, server.workers[worker]? = some (.working event sockfd epollfd) := by
  obtain ⟨place, found, here⟩ := (Option.any_eq_true _ _).mp working
  cases place with
  | working event sockfd epollfd => exact ⟨event, sockfd, epollfd, found⟩
  | created event => exact nomatch here
  | reading event sockfd => exact nomatch here
  | ended => exact nomatch here

theorem storeSockfd_eq {event : Nat} (here : server.main = .storing event) :
    server.storeSockfd = { server with
      cell := { server.cell with sockfd := event }
      main := .stored event } := by
  unfold OneshotServer.storeSockfd
  rw [here]

theorem create_eq {event : Nat} (here : server.main = .stored event) :
    server.create true = { server with
      main := .created
      workers := server.workers ++ [.created event] } := by
  unfold OneshotServer.create
  rw [here]
  rfl

theorem readSockfd_eq {event : Nat} (found : server.workers[worker]? = some (.created event)) :
    server.readSockfd worker = server.move worker (.reading event server.cell.sockfd) := by
  unfold OneshotServer.readSockfd
  rw [found]

theorem readEpollfd_eq {event sockfd : Nat}
    (found : server.workers[worker]? = some (.reading event sockfd)) :
    server.readEpollfd worker =
      server.move worker (.working event sockfd server.cell.epollfd) := by
  unfold OneshotServer.readEpollfd
  rw [found]

/-! ## Holders -/

theorem holders_move (found : server.workers[worker]? = some place) (next : OneshotWorker)
    (fd : Nat) : (server.move worker next).holders fd + (place.runsOn fd).toNat =
      server.holders fd + (next.runsOn fd).toNat := by
  have moved := countP_move (OneshotWorker.runsOn fd) found next
  unfold move holders
  dsimp only
  omega

theorem countP_reports {batch : List OneshotReport} (distinct : (batch.map OneshotReport.fd).Nodup)
    (listenfd fd : Nat) : batch.countP (fun report => report.fd == fd && fd != listenfd) =
      if fd ∈ batch.map OneshotReport.fd ∧ fd ≠ listenfd then 1 else 0 := by
  by_cases listening : fd = listenfd
  · simp [listening]
  · have counted := distinct.count (a := fd)
    rw [List.count_eq_countP, List.countP_map] at counted
    simp only [listening, ne_eq, not_false_eq_true, and_true]
    rw [← counted]
    refine congrArg (List.countP · batch) (funext fun report => ?_)
    simp [listening]

/-- A thread that runs on a descriptor is its only holder, and the descriptor is disarmed. -/
theorem Orderly.held (orderly : Orderly server) (found : server.workers[worker]? = some place)
    (runs : place.runsOn fd = true) :
    server.status fd = .disarmed ∧ server.holders fd = 1 := by
  have counted : 0 < server.workers.countP (OneshotWorker.runsOn fd) :=
    List.countP_pos_iff.mpr ⟨place, List.mem_of_getElem? found, runs⟩
  have one := orderly.one fd
  have disarmed : server.status fd = .disarmed := by
    apply OneshotStatus.disarmed_of_due
    unfold holders at one
    omega
  rw [disarmed] at one
  exact ⟨disarmed, one⟩

namespace Orderly

theorem own_move (orderly : Orderly server) {next : OneshotWorker}
    (own : next.OnOwn server.epollfd) :
    ∀ other ∈ server.workers.set worker next, other.OnOwn server.epollfd := by
  intro other member
  rcases List.mem_or_eq_of_mem_set member with before | rfl
  · exact orderly.own other before
  · exact own

theorem unread_move (orderly : Orderly server) {next : OneshotWorker}
    (read : next.hasRead = true ∨ server.main = .created) :
    ∀ other ∈ server.workers.set worker next, other.hasRead = false → server.main = .created := by
  intro other member unread
  rcases List.mem_or_eq_of_mem_set member with before | rfl
  · exact orderly.unread other before unread
  · exact read.resolve_left fun read => nomatch unread.symm.trans read

theorem meant_move (orderly : Orderly server) {next : OneshotWorker}
    (read : next.isCreated = false) (event : Nat)
    (member : .created event ∈ server.workers.set worker next) :
    server.cell.sockfd = event := by
  rcases List.mem_or_eq_of_mem_set member with before | rfl
  · exact orderly.meant event before
  · exact nomatch read

/-- Outside the block every thread has read what it was told. -/
theorem all_read (orderly : Orderly server) (elsewhere : server.main ≠ .created) :
    ∀ worker ∈ server.workers, worker.hasRead = true := by
  intro worker member
  cases read : worker.hasRead with
  | true => rfl
  | false => exact absurd (orderly.unread worker member read) elsewhere

theorem epollWait (orderly : Orderly server) {batch : List OneshotReport}
    (enabled : server.Enabled (.epollWait batch))
    (readable : ∀ report ∈ batch, report.epollin = true) : Orderly (server.epollWait batch) := by
  obtain ⟨looping, finished, distinct, armed⟩ := enabled
  refine ⟨orderly.own, fun fd => ?_, orderly.unread, orderly.meant, orderly.stored,
    orderly.told, readable⟩
  have one := orderly.one fd
  have counted := countP_reports distinct server.listenfd fd
  unfold holders at one ⊢
  unfold OneshotServer.epollWait
  rw [finished, List.countP_nil] at one
  dsimp only
  rw [counted]
  split
  · next reported =>
      obtain ⟨report, member, same⟩ := List.mem_map.mp reported.1
      have waiting : server.status fd = .armed := same ▸ armed report member
      rw [waiting] at one
      simp only [OneshotStatus.due] at one ⊢
      omega
  · exact one

theorem setStatus (orderly : Orderly server) (free : server.holders fd = 0)
    {status : OneshotStatus} (notDue : status.due = 0) :
    Orderly { server with status := Function.update server.status fd status } := by
  refine ⟨orderly.own, fun other => ?_, orderly.unread, orderly.meant, orderly.stored,
    orderly.told, orderly.readable⟩
  dsimp only
  by_cases same : other = fd
  · subst same
    rw [Function.update_self, notDue]
    exact free
  · rw [Function.update_of_ne same]
    exact orderly.one other

theorem addfd (orderly : Orderly server) {connfd : Option Nat}
    (fresh : ∀ fd ∈ connfd, server.status fd = .closed) : Orderly (server.addfd connfd) := by
  cases connfd with
  | none => exact orderly
  | some connfd =>
      have closed := orderly.one connfd
      rw [fresh connfd rfl] at closed
      exact orderly.setStatus closed rfl

theorem next (orderly : Orderly server) {connfd : Option Nat}
    (enabled : server.Enabled (.next connfd)) : Orderly (server.next connfd) := by
  obtain ⟨looping, -, fresh⟩ := enabled
  unfold OneshotServer.next
  split
  · exact orderly
  · next report rest batch =>
      have readable := orderly.readable
      rw [batch] at readable
      have later : ∀ report ∈ rest, report.epollin = true :=
        fun report member => readable report (List.mem_cons_of_mem _ member)
      have counted := orderly.one
      unfold holders at counted
      simp only [batch, List.countP_cons, looping] at counted
      split
      · next listening =>
          have taken : Orderly { server with pending := rest } := by
            refine ⟨orderly.own, fun fd => ?_, orderly.unread, orderly.meant, orderly.stored,
              orderly.told, later⟩
            have one := counted fd
            have apart : ¬(report.fd == fd && fd != server.listenfd) = true := by
              rw [Bool.and_eq_true, beq_iff_eq, bne_iff_ne]
              exact fun both => both.2 (both.1 ▸ listening)
            rw [if_neg apart] at one
            unfold holders
            dsimp only
            rw [looping]
            exact one
          exact taken.addfd fresh
      · next client =>
          rw [if_pos (readable report List.mem_cons_self)]
          have read := orderly.all_read (looping ▸ nofun)
          refine ⟨orderly.own, fun fd => ?_, ?_, ?_, nofun, fun _ => rfl, later⟩
          · have one := counted fd
            have own : (report.fd == fd && fd != server.listenfd) = (report.fd == fd) := by
              rw [Bool.and_eq_left_iff_imp, beq_iff_eq, bne_iff_ne]
              exact fun same => same ▸ client
            rw [own] at one
            unfold holders MainPlace.holds at *
            dsimp only at one ⊢
            cases here : report.fd == fd
            · rw [here, if_neg Bool.false_ne_true] at one
              simpa only [Bool.toNat_false] using one
            · rw [here, if_pos rfl] at one
              simp only [Bool.toNat_true, Bool.toNat_false] at one ⊢
              omega
          · exact fun worker member unread => nomatch unread.symm.trans (read worker member)
          · exact fun event member => nomatch read _ member

theorem storeSockfd (orderly : Orderly server) (enabled : server.Enabled .storeSockfd) :
    Orderly server.storeSockfd := by
  obtain ⟨event, here⟩ := exists_storing enabled
  have told := orderly.told (here ▸ nofun)
  have read := orderly.all_read (here ▸ nofun)
  rw [storeSockfd_eq here]
  constructor
  · exact orderly.own
  · intro fd
    have one := orderly.one fd
    unfold holders at one
    rw [here] at one
    exact one
  · exact fun worker member unread => nomatch unread.symm.trans (read worker member)
  · exact fun other member => nomatch read _ member
  · rintro other ⟨⟩
    rfl
  · exact fun _ => told
  · exact orderly.readable

theorem create (orderly : Orderly server) (enabled : server.Enabled (.create true)) :
    Orderly (server.create true) := by
  obtain ⟨event, here⟩ := exists_stored enabled
  have told := orderly.told (here ▸ nofun)
  have read := orderly.all_read (here ▸ nofun)
  rw [create_eq here]
  constructor
  · intro worker member
    rcases List.mem_append.mp member with before | new
    · exact orderly.own worker before
    · obtain rfl := List.mem_singleton.mp new
      trivial
  · -- the main loop hands the descriptor to the new thread
    intro fd
    have one := orderly.one fd
    have moved : (OneshotWorker.runsOn fd (.created event)).toNat =
        (MainPlace.holds fd (.stored event)).toNat := rfl
    unfold holders at one ⊢
    rw [here, ← moved] at one
    rw [List.countP_append, List.countP_singleton]
    cases holds : OneshotWorker.runsOn fd (.created event) with
    | false =>
        rw [holds] at one
        exact one
    | true =>
        have idle : (MainPlace.holds fd .created).toNat = 0 := rfl
        rw [holds, Bool.toNat_true] at one
        dsimp only
        rw [idle, if_pos rfl]
        omega
  · exact fun _ _ _ => rfl
  · intro other member
    rcases List.mem_append.mp member with before | new
    · exact nomatch read _ before
    · have same := OneshotWorker.created.inj (List.mem_singleton.mp new)
      exact (orderly.stored event here).trans same.symm
  · exact nofun
  · exact fun _ => told
  · exact orderly.readable

theorem leave (orderly : Orderly server) (enabled : server.Enabled .leave)
    (read : ∀ worker ∈ server.workers, worker.hasRead = true) :
    Orderly { server with main := .looping } := by
  have created : server.main = .created := enabled
  constructor
  · exact orderly.own
  · intro fd
    have one := orderly.one fd
    unfold holders at one
    rw [created] at one
    exact one
  · exact fun worker member unread => nomatch unread.symm.trans (read worker member)
  · exact orderly.meant
  · exact nofun
  · exact absurd rfl
  · exact orderly.readable

/-- Whatever becomes of the memory, nobody reads it. -/
theorem overwrite (orderly : Orderly server) (contents : Fds)
    (enabled : server.Enabled (.overwrite contents)) :
    Orderly { server with cell := contents } := by
  have looping : server.main = .looping := enabled
  have read := orderly.all_read (looping ▸ nofun)
  constructor
  · exact orderly.own
  · exact orderly.one
  · exact orderly.unread
  · exact fun event member => nomatch read _ member
  · exact fun event stored => nomatch looping.symm.trans stored
  · exact fun elsewhere => absurd looping elsewhere
  · exact orderly.readable

theorem readSockfd (orderly : Orderly server) (enabled : server.Enabled (.readSockfd worker)) :
    Orderly (server.readSockfd worker) := by
  obtain ⟨event, found⟩ := exists_created enabled
  have member := List.mem_of_getElem? found
  have created := orderly.unread _ member rfl
  rw [readSockfd_eq found, orderly.meant event member]
  refine ⟨orderly.own_move rfl, fun fd => ?_, orderly.unread_move (.inr created),
    orderly.meant_move rfl, orderly.stored, orderly.told, orderly.readable⟩
  exact (Nat.add_right_cancel (holders_move found (.reading event event) fd)).trans
    (orderly.one fd)

theorem readEpollfd (orderly : Orderly server) (enabled : server.Enabled (.readEpollfd worker)) :
    Orderly (server.readEpollfd worker) := by
  obtain ⟨event, sockfd, found⟩ := exists_reading enabled
  have member := List.mem_of_getElem? found
  have own : sockfd = event := orderly.own _ member
  have created := orderly.unread _ member rfl
  rw [readEpollfd_eq found, orderly.told (created ▸ nofun)]
  refine ⟨orderly.own_move ⟨own, rfl⟩, fun fd => ?_, orderly.unread_move (.inl rfl),
    orderly.meant_move rfl, orderly.stored, orderly.told, orderly.readable⟩
  exact (Nat.add_right_cancel
    (holders_move found (.working event sockfd server.epollfd) fd)).trans (orderly.one fd)

theorem release (orderly : Orderly server) {event sockfd epollfd : Nat}
    (found : server.workers[worker]? = some (.working event sockfd epollfd))
    {status : OneshotStatus} (notDue : status.due = 0) :
    Orderly ({ server with status := Function.update server.status sockfd status }.move worker
      .ended) := by
  refine ⟨orderly.own_move trivial, fun fd => ?_, orderly.unread_move (.inl rfl),
    orderly.meant_move rfl, orderly.stored, orderly.told, orderly.readable⟩
  have moved := holders_move found .ended fd
  have same : ({ server with status := Function.update server.status sockfd status }.move worker
      .ended).holders fd = (server.move worker .ended).holders fd := rfl
  rw [same]
  unfold OneshotWorker.runsOn at moved
  unfold move at *
  dsimp only
  by_cases mine : fd = sockfd
  · subst mine
    obtain ⟨-, one⟩ := orderly.held found (beq_self_eq_true fd)
    rw [Function.update_self, notDue]
    simp only [beq_self_eq_true, Bool.toNat_true, Bool.toNat_false] at moved
    omega
  · have one := orderly.one fd
    rw [Function.update_of_ne mine]
    simp only [beq_false_of_ne (Ne.symm mine), Bool.toNat_false] at moved
    omega

theorem recv (orderly : Orderly server) {result : OneshotRecv}
    (enabled : server.Enabled (.recv worker result)) : Orderly (server.recv worker result) := by
  obtain ⟨event, sockfd, epollfd, found⟩ := exists_working enabled
  obtain ⟨-, told⟩ := orderly.own _ (List.mem_of_getElem? found)
  obtain ⟨disarmed, -⟩ := orderly.held found (beq_self_eq_true sockfd)
  unfold OneshotServer.recv
  rw [found]
  cases result with
  | endOfFile => exact orderly.release found rfl
  | again =>
      dsimp only
      unfold resetOneshot
      rw [if_pos ⟨told, disarmed ▸ nofun⟩]
      exact orderly.release found rfl
  | other => exact orderly

theorem exec (orderly : Orderly server) {step : OneshotStep} (enabled : server.Enabled step)
    (readable : Readable step) (handsOver : HandsOver server step) :
    Orderly (server.exec step) := by
  cases step with
  | epollWait batch => exact orderly.epollWait enabled readable
  | next connfd => exact orderly.next enabled
  | storeSockfd => exact orderly.storeSockfd enabled
  | create started =>
      obtain rfl : started = true := handsOver
      exact orderly.create enabled
  | leave => exact orderly.leave enabled handsOver
  | overwrite contents => exact orderly.overwrite contents enabled
  | readSockfd worker => exact orderly.readSockfd enabled
  | readEpollfd worker => exact orderly.readEpollfd enabled
  | recv worker result => exact orderly.recv enabled

end Orderly

/-! ## Why both reads matter -/

/-- A thread that has not read `sockfd` when the main loop leaves the block works on whatever
is there when it reads. -/
theorem not_handedOff_of_unread {event : Nat} {contents : Fds}
    (found : server.workers[worker]? = some (.created event)) (apart : contents.sockfd ≠ event) :
    ¬ HandedOff ([.leave, .overwrite contents, .readSockfd worker].foldl exec server) := by
  rintro ⟨own, -⟩
  let reused : OneshotServer := { server with main := .looping, cell := contents }
  have there : reused.workers[worker]? = some (.created event) := found
  have moved := readSockfd_eq there
  have inside := (List.getElem?_eq_some_iff.mp found).1
  change ∀ thread ∈ (reused.readSockfd worker).workers, _ at own
  rw [moved] at own
  exact apart (own _ (List.mem_set inside _))

/-- A thread that has read `sockfd` and not `epollfd` asks whatever is there for the next
report. -/
theorem not_handedOff_of_half_read {event sockfd : Nat} {contents : Fds}
    (found : server.workers[worker]? = some (.reading event sockfd))
    (apart : contents.epollfd ≠ server.epollfd) :
    ¬ HandedOff ([.leave, .overwrite contents, .readEpollfd worker].foldl exec server) := by
  rintro ⟨own, -⟩
  let reused : OneshotServer := { server with main := .looping, cell := contents }
  have there : reused.workers[worker]? = some (.reading event sockfd) := found
  have moved := readEpollfd_eq there
  have inside := (List.getElem?_eq_some_iff.mp found).1
  change ∀ thread ∈ (reused.readEpollfd worker).workers,
    thread.OnOwn (reused.readEpollfd worker).epollfd at own
  rw [moved] at own
  exact apart (own _ (List.mem_set inside _)).2

end OneshotServer

open OneshotServer in
/-- If each thread is created and has read both descriptors when the main loop leaves the block,
then in every state each thread works on its own event's descriptor, each disarmed
descriptor has exactly one holder, and no two threads run on one descriptor. -/
theorem epollOneshot_handedOff (listenfd epollfd : Nat) (leftover : Fds)
    (steps : List OneshotStep)
    (run : AllowedRun
      (fun server step => (Enabled server step ∧ Readable step) ∧ HandsOver server step) exec
      (init listenfd epollfd leftover) steps) :
    Throughout HandedOff exec (init listenfd epollfd leftover) steps := by
  have keeps : ∀ server step, Orderly server →
      (Enabled server step ∧ Readable step) ∧ HandsOver server step → Orderly (exec server step) :=
    fun _ _ orderly met => orderly.exec met.1.1 met.1.2 met.2
  exact (run.throughout keeps (orderly_init listenfd epollfd leftover)).mono
    fun _ orderly => orderly.handedOff

/-- Two clients connect, and one batch reports both. Each thread has read the variable before
the main loop leaves the block, and then its memory is used for something else. -/
def readBeforeLeave : List OneshotStep :=
  [.epollWait [⟨3, true⟩], .next (some 5), .epollWait [⟨3, true⟩], .next (some 6),
    .epollWait [⟨5, true⟩, ⟨6, true⟩], .next none, .storeSockfd, .create true, .readSockfd 0,
    .readEpollfd 0, .leave, .overwrite ⟨16, 5⟩, .next none, .storeSockfd, .create true,
    .readSockfd 1, .readEpollfd 1, .leave, .recv 0 .again, .recv 1 .endOfFile]

theorem epollOneshot_handedOff_readBeforeLeave :
    Throughout OneshotServer.HandedOff OneshotServer.exec
      (OneshotServer.init 3 4 ⟨0, 0⟩) readBeforeLeave :=
  epollOneshot_handedOff 3 4 ⟨0, 0⟩ readBeforeLeave (by decide)

/-- The same batch, but the first thread has not read the variable when the second
descriptor is stored there: both threads work on 6, and nobody on 5. -/
def storeBeforeRead : List OneshotStep :=
  [.epollWait [⟨3, true⟩], .next (some 5), .epollWait [⟨3, true⟩], .next (some 6),
    .epollWait [⟨5, true⟩, ⟨6, true⟩], .next none, .storeSockfd, .create true, .leave,
    .next none, .storeSockfd, .create true, .readSockfd 0, .readSockfd 1]

theorem epollOneshot_misdelivers :
    ¬∀ (listenfd epollfd : Nat) (leftover : Fds) (steps : List OneshotStep),
      AllowedRun
        (fun server step => OneshotServer.Enabled server step ∧ OneshotServer.Readable step)
        OneshotServer.exec (OneshotServer.init listenfd epollfd leftover) steps →
      Throughout OneshotServer.HandedOff OneshotServer.exec
        (OneshotServer.init listenfd epollfd leftover) steps := by
  intro claimed
  have good := claimed 3 4 ⟨0, 0⟩ storeBeforeRead (by decide)
  have last := throughout_iff.mp good storeBeforeRead (List.prefix_refl _)
  exact absurd (last.2.2 6) (by decide)

end HPLinuxServer.Execution
