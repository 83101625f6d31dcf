import Mathlib.Algebra.BigOperators.Group.Finset.Basic
import HPLinuxServer.Pool.ProcessPoolProperties

/-!
# Process pool: connections left in the queue

The parent hands a connection to a child by a message and leaves it in the queue of the
listening socket. What waits there without an event is then covered by messages, as long
as no event stands for two connections.
-/

set_option autoImplicit false

namespace HPLinuxServer.Pool

open Refinement

theorem Child.newConns_process {child : Child} (capacity : Nat) (ret : Int) :
    (child.process capacity ret).newConns = child.newConns := by
  unfold process release
  split
  · split <;> rfl
  · rfl

namespace ProcessPool

variable {pool : ProcessPool} {event : PoolEvent}

/-- The messages that the children have not taken. -/
def messages (pool : ProcessPool) : Nat :=
  ∑ child ∈ Finset.range pool.processNumber, (pool.children child).newConns

/-- The event finds what its handler takes, or hands over, unless another one is raised; a
child only fails to accept when nothing is there; and before the parent blocks, each child
has taken its message. -/
def TakesAll (pool : ProcessPool) : PoolEvent → Prop
  | .connect => True
  | .abort => True
  | .epollWait _ => pool.messages = 0
  | .handle accepted =>
      pool.pending.head? = some .listenfd →
        (pool.backlog ≤ pool.messages + 1 ∧
            (accepted = true ∨ pool.isFree pool.chooseChild = true) ∨
          pool.backlog ≤ pool.messages) ∨
        pool.listenEdge = true
  | .childWait _ => True
  | .newConnection _ accepted => accepted = true ∨ pool.backlog = 0
  | .serve _ _ => True
  | .exit _ => True

/-- When the parent is about to block, there is an event for the connections that wait. -/
def Drained (pool : ProcessPool) : PoolEvent → Prop
  | .epollWait _ => pool.backlog ≠ 0 → pool.listenEdge = true
  | .connect => True
  | .abort => True
  | .handle _ => True
  | .childWait _ => True
  | .newConnection _ _ => True
  | .serve _ _ => True
  | .exit _ => True

instance (pool : ProcessPool) : ∀ event, Decidable (pool.TakesAll event)
  | .connect => inferInstanceAs (Decidable True)
  | .abort => inferInstanceAs (Decidable True)
  | .epollWait _ => inferInstanceAs (Decidable (pool.messages = 0))
  | .handle _ => inferInstanceAs (Decidable (_ → _))
  | .childWait _ => inferInstanceAs (Decidable True)
  | .newConnection _ _ => inferInstanceAs (Decidable (_ ∨ _))
  | .serve _ _ => inferInstanceAs (Decidable True)
  | .exit _ => inferInstanceAs (Decidable True)

instance (pool : ProcessPool) : ∀ event, Decidable (pool.Drained event)
  | .connect => inferInstanceAs (Decidable True)
  | .abort => inferInstanceAs (Decidable True)
  | .epollWait _ => inferInstanceAs (Decidable (pool.backlog ≠ 0 → pool.listenEdge = true))
  | .handle _ => inferInstanceAs (Decidable True)
  | .childWait _ => inferInstanceAs (Decidable True)
  | .newConnection _ _ => inferInstanceAs (Decidable True)
  | .serve _ _ => inferInstanceAs (Decidable True)
  | .exit _ => inferInstanceAs (Decidable True)

/-- What waits has an event, or one is still to be handled, or a child was told. -/
def Attends (pool : ProcessPool) : Prop :=
  pool.listenEdge = true ∨ .listenfd ∈ pool.pending ∨ pool.backlog ≤ pool.messages

theorem messages_update {child : Nat} (inside : child < pool.processNumber) (place : Child) :
    messages { pool with children := Function.update pool.children child place } +
        (pool.children child).newConns =
      pool.messages + place.newConns := by
  have member := Finset.mem_range.mpr inside
  have others : ∀ index ∈ (Finset.range pool.processNumber).erase child,
      (Function.update pool.children child place index).newConns =
        (pool.children index).newConns :=
    fun index member => by rw [Function.update_of_ne (Finset.ne_of_mem_erase member)]
  unfold messages
  dsimp only
  rw [← Finset.add_sum_erase _ _ member, ← Finset.add_sum_erase _ _ member,
    Finset.sum_congr rfl others, Function.update_self]
  omega

theorem messages_onChild (child : Nat) (change : Child → Child)
    (same : (change (pool.children child)).newConns = (pool.children child).newConns) :
    (pool.onChild child change).messages = pool.messages := by
  unfold messages onChild
  refine Finset.sum_congr rfl fun index _ => ?_
  dsimp only
  rw [Function.update_apply]
  split
  · next chosen => rw [same, chosen]
  · rfl

theorem messages_epollWait (batch : List ParentFd) :
    (pool.epollWait batch).messages = pool.messages := by
  unfold messages epollWait
  refine Finset.sum_congr rfl fun index _ => ?_
  dsimp only
  split <;> rfl

theorem messages_assign {child : Nat} (inside : child < pool.processNumber) :
    (pool.assign child).messages = pool.messages + 1 := by
  have updated := messages_update inside (pool.children child).notify
  have notified : (pool.children child).notify.newConns = (pool.children child).newConns + 1 := rfl
  have assigned : (pool.assign child).messages =
      messages { pool with
        children := Function.update pool.children child (pool.children child).notify } := rfl
  omega

theorem messages_newConnection {child : Nat} (inside : child < pool.processNumber)
    (accepted : Bool) :
    pool.messages ≤ (pool.newConnection child accepted).messages + 1 := by
  have updated := messages_update inside ((pool.children child).newConnection accepted)
  have taken : ((pool.children child).newConnection accepted).newConns =
      (pool.children child).newConns - 1 := rfl
  have same : (pool.newConnection child accepted).messages =
      messages { pool with
        children :=
          Function.update pool.children child ((pool.children child).newConnection accepted) } :=
    rfl
  omega

theorem scan_pending (pending : List ParentFd) (rounds i : Nat) :
    scan { pool with pending } rounds i = pool.scan rounds i := by
  induction rounds generalizing i with
  | zero => rfl
  | succ rounds ih =>
      unfold scan
      dsimp only
      rw [ih]
      rfl

theorem chooseChild_pending (pending : List ParentFd) :
    chooseChild { pool with pending } = pool.chooseChild :=
  scan_pending pending _ _

namespace Attends

theorem handleListen (steady : Steady pool) {accepted : Bool}
    (takes : (pool.backlog ≤ pool.messages + 1 ∧
            (accepted = true ∨ pool.isFree pool.chooseChild = true) ∨
          pool.backlog ≤ pool.messages) ∨
        pool.listenEdge = true) :
    Attends (pool.handleListen accepted) := by
  unfold ProcessPool.handleListen
  split
  · have assigned := messages_assign steady.chooseChild_lt
    refine takes.symm.imp id fun few => .inr ?_
    rw [assigned]
    exact few.elim And.left Nat.le_succ_of_le
  · next busy =>
      unfold reject
      split
      · exact takes.symm.imp id fun few => .inr (few.elim (fun one => Nat.sub_le_of_le_add one.1)
          fun none_left => Nat.le_trans (Nat.sub_le _ _) none_left)
      · next failed =>
          exact takes.symm.imp id fun few => .inr
            (few.resolve_left fun one => one.2.elim failed busy)

theorem handle (steady : Steady pool) (attends : Attends pool) {accepted : Bool}
    (takes : pool.TakesAll (.handle accepted)) : Attends (pool.handle accepted) := by
  cases batch : pool.pending with
  | nil =>
      unfold ProcessPool.handle
      rw [batch]
      exact attends
  | cons fd rest =>
      rw [handle_cons batch]
      have later (other : fd ≠ .listenfd) : Attends { pool with pending := rest } := by
        refine attends.imp_right (Or.imp_left fun member => ?_)
        rw [batch] at member
        exact (List.mem_cons.mp member).resolve_left other.symm
      cases fd with
      | listenfd =>
          have picked : Steady { pool with pending := rest } :=
            ⟨steady.start, steady.edges, fun i member =>
              steady.known i (batch ▸ List.mem_cons_of_mem _ member)⟩
          have found := takes (by rw [batch]; rfl)
          rw [← chooseChild_pending rest] at found
          exact Attends.handleListen picked found
      | sigPipe => exact later nofun
      | c2p child =>
          have heard : (({ pool with pending := rest } : ProcessPool).onChild child
              Child.heard).messages = pool.messages := messages_onChild child Child.heard rfl
          exact (later nofun).imp_right (Or.imp_right fun few => heard.symm ▸ few)
      | unset => exact later nofun

theorem epollWait (attends : Attends pool) (blocking : pool.pending = [])
    (batch : List ParentFd) : Attends (pool.epollWait batch) := by
  by_cases reported : .listenfd ∈ batch
  · exact .inr (.inl reported)
  · rcases attends with edge | member | few
    · refine .inl ?_
      unfold ProcessPool.epollWait
      dsimp only
      rw [edge, decide_eq_true reported]
      rfl
    · rw [blocking] at member
      exact absurd member List.not_mem_nil
    · refine .inr (.inr ?_)
      rw [messages_epollWait]
      exact few

theorem onChild (attends : Attends pool) (child : Nat) (change : Child → Child)
    (same : (change (pool.children child)).newConns = (pool.children child).newConns) :
    Attends (pool.onChild child change) :=
  attends.imp_right (Or.imp_right fun few => (messages_onChild child change same).symm ▸ few)

theorem newConnection (attends : Attends pool) {child : Nat} (inside : child < pool.processNumber)
    {accepted : Bool} (takes : accepted = true ∨ pool.backlog = 0) :
    Attends (pool.newConnection child accepted) := by
  refine attends.imp_right (Or.imp_right fun few => ?_)
  have taken := messages_newConnection inside accepted
  have backlog : (pool.newConnection child accepted).backlog =
      if accepted then pool.backlog - 1 else pool.backlog := rfl
  rw [backlog]
  split
  · omega
  · next failed =>
      rw [takes.resolve_left failed]
      exact Nat.zero_le _

theorem exec (steady : Steady pool) (attends : Attends pool) (enabled : pool.Enabled event)
    (takes : pool.TakesAll event) : Attends (pool.exec event) := by
  cases event with
  | connect => exact .inl rfl
  | abort => exact attends.imp_right (Or.imp_right (Nat.le_trans (Nat.sub_le _ _)))
  | epollWait batch => exact attends.epollWait enabled.1 batch
  | handle accepted => exact attends.handle steady takes
  | childWait child => exact attends.onChild child Child.wait rfl
  | newConnection child accepted => exact attends.newConnection enabled.1.1.1 takes
  | serve child ret => exact attends.onChild child _ (Child.newConns_process pool.capacity ret)
  | exit child => exact attends.onChild child Child.exit rfl

/-- Where every message has been taken, what waits has an event. -/
theorem drained (attends : Attends pool) (enabled : pool.Enabled event)
    (takes : pool.TakesAll event) : pool.Drained event := by
  cases event with
  | epollWait batch =>
      intro waiting
      refine attends.resolve_right fun covered => ?_
      rcases covered with member | few
      · rw [enabled.1] at member
        exact absurd member List.not_mem_nil
      · rw [show pool.messages = 0 from takes] at few
        exact waiting (Nat.le_zero.mp few)
  | connect => trivial
  | abort => trivial
  | handle accepted => trivial
  | childWait child => trivial
  | newConnection child accepted => trivial
  | serve child ret => trivial
  | exit child => trivial

end Attends

theorem drained_run {processNumber : Nat} (atLeastOne : 1 ≤ processNumber) (capacity : Nat)
    (pid usedProcess : Nat → Int) (leftovers : Nat → ParentFd) {events : List PoolEvent}
    (run : AllowedRun (fun pool event => Enabled pool event ∧ TakesAll pool event) exec
      (init processNumber capacity pid usedProcess leftovers) events) :
    AllowedRun Drained exec (init processNumber capacity pid usedProcess leftovers) events := by
  have keeps : ∀ pool event, Steady pool ∧ Attends pool →
      Enabled pool event ∧ TakesAll pool event → Steady (exec pool event) ∧ Attends (exec pool event) :=
    fun pool event ⟨steady, attends⟩ ⟨enabled, takes⟩ =>
      ⟨steady.exec enabled, attends.exec steady enabled takes⟩
  have start : Attends (init processNumber capacity pid usedProcess leftovers) :=
    .inr (.inr (Nat.zero_le _))
  have kept := run.and_invariant keeps 
    ⟨steady_init atLeastOne capacity pid usedProcess leftovers, start⟩
  exact kept.mono fun pool event ⟨⟨_, attends⟩, enabled, takes⟩ => attends.drained enabled takes

end ProcessPool

end HPLinuxServer.Pool
