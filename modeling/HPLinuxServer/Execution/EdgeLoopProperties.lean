import HPLinuxServer.Execution.EdgeLoop
import HPLinuxServer.Pool.ProcessPoolDrain

/-!
# Edges that are lost

A handler that takes less than what waits leaves the rest without an event. Both loops
keep everything covered as long as each event finds no more than its handler takes, or
more has arrived since it was reported.
-/

set_option autoImplicit false

namespace HPLinuxServer.Execution

open Kernel Refinement

/-- What waits has an event, and a reported one is still to be handled. -/
structure Attended {α : Type} (watch : Watch α) (isPending : Prop) : Prop where
  covered : watch.Covered
  reported : watch.reported = true → isPending

namespace Attended

variable {α : Type} {watch : Watch α} {isPending other : Prop}

theorem mono (attended : Attended watch isPending) (weaker : isPending → other) :
    Attended watch other :=
  ⟨attended.covered, fun reported => weaker (attended.reported reported)⟩

theorem arrive (attended : Attended watch isPending) (items : List α) :
    Attended (watch.arrive items) isPending :=
  ⟨Watch.covered_arrive items, attended.reported⟩

theorem report (watch : Watch α) (now : isPending) : Attended watch.report isPending :=
  ⟨Watch.covered_report, fun _ => now⟩

theorem handled {count : Nat} (enough : watch.waiting.length ≤ count ∨ watch.raised = true) :
    Attended (watch.handled count) isPending :=
  ⟨Watch.covered_handled_iff.mpr enough, fun reported => nomatch reported⟩

end Attended

namespace EdgeLoop

variable {ρ : Type} {loop : EdgeLoop}

/-- Everything is attended, but for the source whose event has just been picked. -/
structure Attends (loop : EdgeLoop) (picked : Option Source) : Prop where
  completed : picked ≠ some .listenfd → Attended loop.completed (.listenfd ∈ loop.pending)
  sockets : ∀ number, (loop.sockets number).registered = true → picked ≠ some (.client number) →
    Attended (loop.sockets number).stream (.client number ∈ loop.pending)

theorem attends_init : Attends init none where
  completed := fun _ => ⟨fun waiting => absurd rfl waiting, fun reported => nomatch reported⟩
  sockets := fun _ registered => nomatch registered

theorem Attends.drained (attends : loop.Attends none) : loop.Drained := by
  intro blocking
  have quiet {α : Type} {watch : Watch α} {source : Source}
      (attended : Attended watch (source ∈ loop.pending)) (waiting : watch.waiting ≠ []) :
      watch.raised = true := by
    refine (attended.covered waiting).resolve_right fun reported => ?_
    have isPending := attended.reported reported
    rw [blocking] at isPending
    exact absurd isPending List.not_mem_nil
  exact ⟨quiet (attends.completed nofun), fun number registered =>
    quiet (attends.sockets number registered nofun)⟩

theorem Attends.setSocket {picked : Option Source} (attends : loop.Attends picked) (number : Nat)
    (socket : Socket) (new : socket.registered = true →
      Attended socket.stream (.client number ∈ loop.pending)) {still : Option Source}
    (handled : picked = still ∨ picked = some (.client number)) :
    (loop.setSocket number socket).Attends still where
  completed := fun other => attends.completed fun same => by
    rcases handled with rfl | rfl
    · exact other same
    · cases same
  sockets := fun index registered other => by
    unfold EdgeLoop.setSocket at registered ⊢
    dsimp only at registered ⊢
    rw [Function.update_apply] at registered ⊢
    split at registered
    · next same =>
        rw [if_pos same, same]
        exact new registered
    · next different =>
        rw [if_neg different]
        refine attends.sockets index registered fun same => ?_
        rcases handled with rfl | rfl
        · exact other same
        · cases same
          exact different rfl

theorem Attends.handledListen (attends : loop.Attends (some .listenfd)) {count : Nat}
    (enough : loop.completed.waiting.length ≤ count ∨ loop.completed.raised = true) :
    { loop with completed := loop.completed.handled count }.Attends none where
  completed := fun _ => .handled enough
  sockets := fun number registered _ => attends.sockets number registered nofun

theorem attended_register (socket : Socket) {isPending : Prop} :
    Attended socket.register.stream isPending where
  covered := fun waiting => .inl (decide_eq_true waiting)
  reported := fun reported => nomatch reported

theorem Attends.accept (attends : loop.Attends (some .listenfd)) (registers : Bool)
    (enough : loop.completed.waiting.length ≤ 1 ∨ loop.completed.raised = true) :
    (loop.accept registers).Attends none := by
  have taken := attends.handledListen enough
  unfold EdgeLoop.accept
  dsimp only
  split
  · exact taken.setSocket _ _ (fun _ => attended_register _) (.inl rfl)
  · exact taken
  · exact taken

theorem Attends.decline (attends : loop.Attends (some .listenfd))
    (enough : loop.completed.waiting = [] ∨ loop.completed.raised = true) :
    loop.decline.Attends none :=
  attends.handledListen (enough.imp_left fun none_waits => by rw [none_waits]; exact Nat.le_refl 0)

theorem Attends.take {number : Nat} (attends : loop.Attends (some (.client number))) {count : Nat}
    (enough : (loop.sockets number).stream.waiting.length ≤ count ∨
      (loop.sockets number).stream.raised = true) :
    (loop.take number count).Attends none :=
  attends.setSocket number _ (fun _ => .handled enough) (.inr rfl)

theorem Attends.closeClient {number : Nat} {picked : Option Source} (attends : loop.Attends picked)
    (handled : picked = none ∨ picked = some (.client number)) :
    (loop.closeClient number).Attends none :=
  attends.setSocket number _ (fun registered => absurd registered Bool.false_ne_true) handled

theorem Attends.report {source : Source} (attends : loop.Attends none)
    (isPending : source ∈ loop.pending) : (loop.report source).Attends none := by
  cases source with
  | listenfd => exact ⟨fun _ => .report _ isPending, attends.sockets⟩
  | client number => exact attends.setSocket number _ (fun _ => .report _ isPending) (.inl rfl)

theorem pending_report (source : Source) : (loop.report source).pending = loop.pending := by
  cases source <;> rfl

theorem Attends.reports {batch : List Source} (attends : loop.Attends none)
    (arePending : batch ⊆ loop.pending) : (batch.foldl EdgeLoop.report loop).Attends none := by
  induction batch generalizing loop with
  | nil => exact attends
  | cons source batch ih =>
      refine ih (attends.report (arePending List.mem_cons_self)) fun other member => ?_
      rw [pending_report]
      exact arePending (List.mem_cons_of_mem _ member)

/-- The reports and the list of pending events can be stored in either order. -/
theorem reports_with (batch pending : List Source) :
    { batch.foldl EdgeLoop.report loop with pending } =
      batch.foldl EdgeLoop.report { loop with pending } := by
  induction batch generalizing loop with
  | nil => rfl
  | cons source batch ih =>
      refine ih.trans ?_
      cases source <;> rfl

/-- While nothing is pending, nothing has been reported either. -/
theorem Attends.wait (attends : loop.Attends none) (blocking : loop.pending = [])
    (batch : List Source) : { loop with pending := batch }.Attends none where
  completed := fun other => (attends.completed other).mono fun member =>
    absurd (blocking ▸ member) List.not_mem_nil
  sockets := fun number registered other =>
    (attends.sockets number registered other).mono fun member =>
      absurd (blocking ▸ member) List.not_mem_nil

theorem Attends.pick (attends : loop.Attends none) {source : Source} {rest : List Source}
    (pending : loop.pending = source :: rest) :
    { loop with pending := rest }.Attends (some source) where
  completed := fun other => (attends.completed nofun).mono fun member =>
    (List.mem_cons.mp (pending ▸ member)).resolve_left fun same => other (congrArg some same.symm)
  sockets := fun number registered other =>
    (attends.sockets number registered nofun).mono fun member =>
      (List.mem_cons.mp (pending ▸ member)).resolve_left fun same => other (congrArg some same.symm)

/-- The branches of a server attend to the event they are for, under a condition on the
state before it. -/
structure Serves (branches : Branches ρ) (meets : EdgeLoop → Source → ρ → Prop) : Prop where
  onListen : ∀ loop answer, loop.Attends (some .listenfd) → meets loop .listenfd answer →
    (branches.onListen loop answer).Attends none
  onClient : ∀ loop number answer, loop.Attends (some (.client number)) →
    meets loop (.client number) answer → (branches.onClient loop number answer).Attends none

/-- The condition for the operation that handles an event. -/
def OnHandle (meets : EdgeLoop → Source → ρ → Prop) (loop : EdgeLoop) : LoopOp ρ → Prop
  | .connect => True
  | .receive _ _ => True
  | .epollWait _ => True
  | .handle answer =>
      match loop.pending with
      | [] => True
      | source :: _ => meets loop source answer
  | .close _ => True

instance (meets : EdgeLoop → Source → ρ → Prop)
    [∀ loop source answer, Decidable (meets loop source answer)] (loop : EdgeLoop) :
    ∀ op, Decidable (OnHandle meets loop op)
  | .connect => inferInstanceAs (Decidable True)
  | .receive _ _ => inferInstanceAs (Decidable True)
  | .epollWait _ => inferInstanceAs (Decidable True)
  | .handle answer =>
      have (pending : List Source) : Decidable (match pending with
          | [] => True
          | source :: _ => meets loop source answer) :=
        match pending with
        | [] => inferInstanceAs (Decidable True)
        | _ :: _ => inferInstanceAs (Decidable (meets _ _ _))
      this loop.pending
  | .close _ => inferInstanceAs (Decidable True)

theorem attends_exec {branches : Branches ρ} {meets : EdgeLoop → Source → ρ → Prop}
    (local_meets : ∀ loop pending source answer,
      meets loop source answer → meets { loop with pending } source answer)
    (serves : Serves branches meets) (loop : EdgeLoop) (op : LoopOp ρ)
    (attends : loop.Attends none) (allowed : loop.Enabled op ∧ OnHandle meets loop op) :
    (exec branches loop op).Attends none := by
  obtain ⟨enabled, met⟩ := allowed
  cases op with
  | connect => exact ⟨fun other => (attends.completed other).arrive _, attends.sockets⟩
  | receive number bytes =>
      refine attends.setSocket number _ (fun registered => ?_) (.inl rfl)
      unfold Socket.receive at registered ⊢
      dsimp only at registered ⊢
      rw [if_pos registered]
      exact (attends.sockets number registered nofun).arrive bytes
  | epollWait batch =>
      unfold exec
      dsimp only
      rw [reports_with]
      exact (attends.wait enabled.1 batch).reports fun _ member => member
  | handle answer =>
      unfold OnHandle at met
      unfold exec
      dsimp only at met ⊢
      split
      · exact attends
      · next rest pending =>
          rw [pending] at met
          exact serves.onListen _ _ (attends.pick pending) (local_meets _ _ _ _ met)
      · next number rest pending =>
          rw [pending] at met
          exact serves.onClient _ _ _ (attends.pick pending) (local_meets _ _ _ _ met)
  | close number => exact attends.closeClient (.inl rfl)

/-- A run whose events all find no more than their handlers take loses none. -/
theorem drained_run {branches : Branches ρ} {meets : EdgeLoop → Source → ρ → Prop}
    (local_meets : ∀ loop pending source answer,
      meets loop source answer → meets { loop with pending } source answer)
    (serves : Serves branches meets) {ops : List (LoopOp ρ)}
    (run : AllowedRun (fun loop op => loop.Enabled op ∧ OnHandle meets loop op) (exec branches)
      init ops) :
    Throughout Drained (exec branches) init ops :=
  (run.throughout (attends_exec local_meets serves) attends_init).mono fun _ attends =>
    attends.drained

end EdgeLoop

namespace TimeoutServer

/-- The event finds what one `accept` or one `recv` takes, or another event is raised. -/
def TakesAll (loop : EdgeLoop) (source : Source) (_ : LoopAnswer) : Prop :=
  match source with
  | .listenfd => loop.completed.waiting.length ≤ 1 ∨ loop.completed.raised = true
  | .client number =>
      (loop.sockets number).stream.waiting.length ≤ bufferSize - 1 ∨
        (loop.sockets number).stream.raised = true

instance (loop : EdgeLoop) (answer : LoopAnswer) : ∀ source, Decidable (TakesAll loop source answer)
  | .listenfd => inferInstanceAs (Decidable (_ ∨ _))
  | .client _ => inferInstanceAs (Decidable (_ ∨ _))

theorem serves : EdgeLoop.Serves branches TakesAll where
  onListen := fun _ _ attends enough => attends.accept true enough
  onClient := fun loop number answer attends enough => by
    unfold branches receiveBranch
    dsimp only
    split
    · exact attends.closeClient (.inr rfl)
    · exact attends.take enough

theorem takesAll_local (loop : EdgeLoop) (pending : List Source) (source : Source)
    (answer : LoopAnswer) (takes : TakesAll loop source answer) :
    TakesAll { loop with pending } source answer := by
  cases source with
  | listenfd => exact takes
  | client number => exact takes

end TimeoutServer

namespace WebServer

/-- The event finds what one `accept` takes, or another one is raised. -/
def TakesAll (loop : EdgeLoop) (source : Source) (answer : LoopAnswer) : Prop :=
  match source with
  | .listenfd =>
      (loop.completed.waiting.length ≤ 1 ∧ answer.accepted = true ∨ loop.completed.waiting = []) ∨
        loop.completed.raised = true
  | .client _ => True

instance (loop : EdgeLoop) (answer : LoopAnswer) : ∀ source, Decidable (TakesAll loop source answer)
  | .listenfd => inferInstanceAs (Decidable (_ ∨ _))
  | .client _ => inferInstanceAs (Decidable True)

/-- As `init` is given the listening descriptor, none of a client is ever registered. -/
structure NoClients (loop : EdgeLoop) : Prop where
  unregistered : ∀ number, (loop.sockets number).registered = false
  pending : ∀ number, .client number ∉ loop.pending

theorem noClients_report {loop : EdgeLoop} (noClients : NoClients loop) {batch : List Source}
    (ready : ∀ source ∈ batch, loop.Ready source) :
    NoClients { batch.foldl EdgeLoop.report loop with pending := batch } := by
  have listens : ∀ source ∈ batch, source = .listenfd := fun source member => by
    cases source with
    | listenfd => rfl
    | client number =>
        exact absurd ((noClients.unregistered number).symm.trans (ready _ member).1) Bool.false_ne_true
  have sockets : (batch.foldl EdgeLoop.report loop).sockets = loop.sockets := by
    clear ready noClients
    induction batch generalizing loop with
    | nil => rfl
    | cons source batch ih =>
        obtain rfl := listens source List.mem_cons_self
        exact ih fun other member => listens other (List.mem_cons_of_mem _ member)
  refine ⟨fun number => ?_, fun number member => nomatch listens _ member⟩
  dsimp only
  rw [sockets]
  exact noClients.unregistered number

theorem noClients_exec (loop : EdgeLoop) (op : LoopOp LoopAnswer) (noClients : NoClients loop)
    (enabled : loop.Enabled op) : NoClients (EdgeLoop.exec branches loop op) := by
  cases op with
  | connect => exact ⟨noClients.unregistered, noClients.pending⟩
  | receive number bytes =>
      refine ⟨fun index => ?_, noClients.pending⟩
      have same := noClients.unregistered
      unfold EdgeLoop.exec EdgeLoop.setSocket
      dsimp only
      rw [Function.update_apply]
      split
      · exact same number
      · exact same index
  | epollWait batch => exact noClients_report noClients enabled.2.2
  | handle answer =>
      unfold EdgeLoop.exec
      dsimp only
      split
      · exact noClients
      · next rest pending =>
          have later : ∀ number, .client number ∉ rest := fun number member =>
            noClients.pending number (pending ▸ List.mem_cons_of_mem _ member)
          unfold branches acceptBranch
          dsimp only
          split
          · exact ⟨noClients.unregistered, later⟩
          · exact ⟨noClients.unregistered, later⟩
      · next number rest pending =>
          exact absurd (pending ▸ List.mem_cons_self) (noClients.pending number)
  | close number =>
      exact absurd ((noClients.unregistered number).symm.trans enabled.2) Bool.false_ne_true

/-- What `TakesAll` comes to where no event is about a client. -/
def Listens (loop : EdgeLoop) (source : Source) (answer : LoopAnswer) : Prop :=
  source = .listenfd ∧ TakesAll loop source answer

theorem serves : EdgeLoop.Serves branches Listens where
  onListen := fun loop answer attends ⟨_, takes⟩ => by
    unfold TakesAll at takes
    unfold branches acceptBranch
    dsimp only at takes ⊢
    split
    · refine attends.accept false (takes.imp_left fun few => ?_)
      rcases few with few | none_waits
      · exact few.1
      · rw [none_waits]
        exact Nat.zero_le 1
    · next failed =>
        exact attends.decline (takes.imp_left fun few => few.resolve_left fun one => failed one.2)
  onClient := fun _ _ _ _ listens => nomatch listens.1

theorem listens_local (loop : EdgeLoop) (pending : List Source) (source : Source)
    (answer : LoopAnswer) (listens : Listens loop source answer) :
    Listens { loop with pending } source answer := by
  obtain ⟨rfl, takes⟩ := listens
  exact ⟨rfl, takes⟩

theorem listens_of_takesAll (loop : EdgeLoop) (op : LoopOp LoopAnswer)
    (met : NoClients loop ∧ loop.Enabled op ∧ EdgeLoop.OnHandle TakesAll loop op) :
    loop.Enabled op ∧ EdgeLoop.OnHandle Listens loop op := by
  obtain ⟨noClients, enabled, takes⟩ := met
  refine ⟨enabled, ?_⟩
  cases op with
  | connect => trivial
  | receive number bytes => trivial
  | epollWait batch => trivial
  | handle answer =>
      unfold EdgeLoop.OnHandle at takes ⊢
      dsimp only at takes ⊢
      cases pending : loop.pending with
      | nil => trivial
      | cons source rest =>
          rw [pending] at takes
          cases source with
          | listenfd => exact ⟨rfl, takes⟩
          | client number =>
              exact absurd (pending ▸ List.mem_cons_self) (noClients.pending number)
  | close number => trivial

theorem drained_run {ops : List (LoopOp LoopAnswer)}
    (run : AllowedRun (fun loop op => loop.Enabled op ∧ EdgeLoop.OnHandle TakesAll loop op)
      (EdgeLoop.exec branches) .init ops) :
    Throughout EdgeLoop.Drained (EdgeLoop.exec branches) .init ops := by
  have no_clients : NoClients .init := ⟨fun _ => rfl, fun _ => List.not_mem_nil⟩
  have kept := run.and_invariant (fun loop op noClients met => noClients_exec loop op noClients met.1) no_clients
  exact EdgeLoop.drained_run listens_local serves (kept.mono listens_of_takesAll)

end WebServer

/-! ## The three loops -/

open Pool in
/-- Neither loop, and not the parent of the process pool, leaves anything behind without an
event when it blocks, if every event finds no more than its handler takes. -/
theorem edgeTriggered_drained (timeoutOps : List (LoopOp TimeoutServer.LoopAnswer))
    (webOps : List (LoopOp WebServer.LoopAnswer)) (processNumber capacity : Nat)
    (pid usedProcess : Nat → Int) (leftovers : Nat → ParentFd) (events : List PoolEvent) :
    (AllowedRun
        (fun loop op => loop.Enabled op ∧ EdgeLoop.OnHandle TimeoutServer.TakesAll loop op)
        (EdgeLoop.exec TimeoutServer.branches) .init timeoutOps →
      Throughout EdgeLoop.Drained (EdgeLoop.exec TimeoutServer.branches) .init timeoutOps) ∧
    (AllowedRun (fun loop op => loop.Enabled op ∧ EdgeLoop.OnHandle WebServer.TakesAll loop op)
        (EdgeLoop.exec WebServer.branches) .init webOps →
      Throughout EdgeLoop.Drained (EdgeLoop.exec WebServer.branches) .init webOps) ∧
    (1 ≤ processNumber →
      AllowedRun (fun pool event => pool.Enabled event ∧ pool.TakesAll event) ProcessPool.exec
        (ProcessPool.init processNumber capacity pid usedProcess leftovers) events →
      AllowedRun ProcessPool.Drained ProcessPool.exec
        (ProcessPool.init processNumber capacity pid usedProcess leftovers) events) :=
  ⟨fun run => EdgeLoop.drained_run TimeoutServer.takesAll_local TimeoutServer.serves run,
    fun run => WebServer.drained_run run,
    fun atLeastOne run =>
      ProcessPool.drained_run atLeastOne capacity pid usedProcess leftovers run⟩

/-- The results of the system calls for a connection that is accepted. -/
def acceptedAnswer : WebServer.LoopAnswer where
  accepted := true
  hangup := false
  input := true
  conn := Http.idleConn

/-- Clients that come one by one, and never send more than one `recv` takes. -/
theorem edgeTriggered_drained_oneByOne :
    Throughout EdgeLoop.Drained (EdgeLoop.exec TimeoutServer.branches) .init
        [.connect, .epollWait [.listenfd], .handle ⟨false⟩, .receive 0 [104, 105],
          .epollWait [.client 0], .handle ⟨false⟩] ∧
      Throughout EdgeLoop.Drained (EdgeLoop.exec WebServer.branches) .init
        [.connect, .epollWait [.listenfd], .connect, .handle acceptedAnswer,
          .epollWait [.listenfd], .handle acceptedAnswer] ∧
      AllowedRun Pool.ProcessPool.Drained Pool.ProcessPool.exec
        (.init 2 278 (fun _ => 7) (fun _ => 0) fun _ => .unset)
        (Pool.sampleService ++ [.childWait 0, .newConnection 0 true, .epollWait []]) := by
  obtain ⟨timeoutServer, webServer, processPool⟩ := edgeTriggered_drained
    [.connect, .epollWait [.listenfd], .handle ⟨false⟩, .receive 0 [104, 105],
      .epollWait [.client 0], .handle ⟨false⟩]
    [.connect, .epollWait [.listenfd], .connect, .handle acceptedAnswer,
      .epollWait [.listenfd], .handle acceptedAnswer]
    2 278 (fun _ => 7) (fun _ => 0) (fun _ => .unset)
    (Pool.sampleService ++ [.childWait 0, .newConnection 0 true, .epollWait []])
  exact ⟨timeoutServer (by decide), webServer (by decide),
    processPool (by decide) (by decide +kernel)⟩

/-- Two connections complete before `epoll_wait` returns, and each server takes one. -/
theorem edgeTriggered_losesEdge :
    (¬∀ ops, AllowedRun EdgeLoop.Enabled (EdgeLoop.exec TimeoutServer.branches) .init ops →
      Throughout EdgeLoop.Drained (EdgeLoop.exec TimeoutServer.branches) .init ops) ∧
    (¬∀ ops, AllowedRun EdgeLoop.Enabled (EdgeLoop.exec WebServer.branches) .init ops →
      Throughout EdgeLoop.Drained (EdgeLoop.exec WebServer.branches) .init ops) ∧
    ¬∀ (processNumber capacity : Nat) (pid usedProcess : Nat → Int) (leftovers : Nat → Pool.ParentFd)
        (events : List Pool.PoolEvent), 1 ≤ processNumber →
      AllowedRun Pool.ProcessPool.Enabled Pool.ProcessPool.exec
        (.init processNumber capacity pid usedProcess leftovers) events →
      AllowedRun Pool.ProcessPool.Drained Pool.ProcessPool.exec
        (.init processNumber capacity pid usedProcess leftovers) events := by
  refine ⟨fun claimed => ?_, fun claimed => ?_, fun claimed => ?_⟩
  · have drained := throughout_iff.mp
      (claimed [.connect, .connect, .epollWait [.listenfd], .handle ⟨false⟩] (by decide)) _
      List.prefix_rfl
    exact absurd ((drained rfl).1 (by decide)) (by decide)
  · have drained := throughout_iff.mp
      (claimed [.connect, .connect, .epollWait [.listenfd], .handle acceptedAnswer] (by decide)) _
      List.prefix_rfl
    exact absurd ((drained rfl).1 (by decide)) (by decide)
  · have drained := claimed 1 278 (fun _ => 7) (fun _ => 0) (fun _ => .unset)
      [.connect, .connect, .epollWait [.listenfd], .handle false, .childWait 0,
        .newConnection 0 true, .epollWait []] (Nat.le_refl 1) (by decide)
    exact absurd drained (by decide)

end HPLinuxServer.Execution
