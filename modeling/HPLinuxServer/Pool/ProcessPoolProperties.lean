import HPLinuxServer.Pool.ProcessPool
import HPLinuxServer.Refinement.Runs
import Mathlib.Order.Basic

/-!
# Process pool: assignments and releases

Who is assigned a connection and who is believed to be busy. The invariant of each
child is about its own record; a step of the pool changes one record at a time, or
reports on several of them.
-/

set_option autoImplicit false

namespace HPLinuxServer.Pool

open Refinement

namespace Child

variable {child : Child}

/-- The reports of the p2c pipe never outnumber the messages in it. -/
def Edges (child : Child) : Prop := child.pipeEdge.toNat + child.polled.toNat ≤ child.newConns

theorem Edges.notify (edges : child.Edges) : child.notify.Edges := by
  unfold Edges Child.notify at *
  have := child.pipeEdge.toNat_le
  simp only [Bool.toNat_true]
  cases known : child.pipeEdge
  · simp only [known, Bool.toNat_false] at edges
    omega
  · simp only [known, Bool.toNat_true] at edges
    omega

theorem Edges.wait (edges : child.Edges) (reported : child.pipeEdge = true)
    (handled : child.polled = false) : child.wait.Edges := by
  unfold Edges Child.wait at *
  simpa [reported, handled] using edges

theorem Edges.newConnection (edges : child.Edges) (polled : child.polled = true)
    (accepted : Bool) : (child.newConnection accepted).Edges := by
  unfold Edges Child.newConnection at *
  simp only [polled, Bool.toNat_true] at edges
  simp only [Bool.toNat_false]
  omega

theorem Edges.process (edges : child.Edges) (capacity : Nat) (ret : Int) :
    (child.process capacity ret).Edges := by
  unfold Child.process Child.release
  split
  · split
    · exact edges
    · exact edges
  · exact edges

@[simp] theorem outstanding_notify : child.notify.outstanding = child.outstanding + 1 := by
  unfold outstanding notify
  simp only
  omega

@[simp] theorem outstanding_report : child.report.outstanding = child.outstanding := by
  unfold outstanding report
  simp only
  omega

theorem outstanding_heard : child.heard.outstanding + child.reported = child.outstanding := by
  unfold outstanding heard
  simp only
  omega

@[simp] theorem outstanding_wait : child.wait.outstanding = child.outstanding := rfl

theorem outstanding_newConnection (edges : child.Edges) (polled : child.polled = true)
    (accepted : Bool) :
    (child.newConnection accepted).outstanding + 1 = child.outstanding + accepted.toNat := by
  unfold Edges at edges
  simp only [polled, Bool.toNat_true] at edges
  unfold outstanding newConnection
  cases accepted <;> simp only [Bool.toNat_true, Bool.toNat_false, if_true, Bool.false_eq_true,
    if_false] <;> omega

/-- A release for which there is no room is not outstanding. -/
theorem outstanding_process (connected : 0 < child.connections) (capacity : Nat) (ret : Int) :
    (child.process capacity ret).outstanding + (if ret ≠ 0 ∨ child.sent < capacity then 0 else 1) =
      child.outstanding := by
  unfold process release outstanding
  by_cases closed : ret = 0
  · by_cases room : child.sent < capacity
    · simp only [closed, room, if_true, or_true]
      omega
    · simp only [closed, room, ne_eq, not_true_eq_false, or_self, if_true, if_false]
      omega
  · simp only [closed, if_false, ne_eq, not_false_eq_true, true_or, if_true]
    omega

theorem outstanding_process_le (connected : 0 < child.connections) (capacity : Nat) (ret : Int) :
    (child.process capacity ret).outstanding ≤ child.outstanding :=
  Nat.le_trans (Nat.le_add_right _ _)
    (Nat.le_of_eq (outstanding_process connected capacity ret))

theorem exited_process (capacity : Nat) (ret : Int) :
    (child.process capacity ret).exited = child.exited := by
  unfold process release
  split
  · split <;> rfl
  · rfl

end Child

namespace ProcessPool

variable {pool : ProcessPool} {event : PoolEvent}

theorem scan_lt (start : pool.subProcessCount < pool.processNumber) (rounds : Nat) {i : Nat}
    (inside : i < pool.processNumber) : pool.scan rounds i < pool.processNumber := by
  induction rounds generalizing i with
  | zero => exact inside
  | succ rounds ih =>
      have next := Nat.mod_lt (i + 1) (Nat.zero_lt_of_lt start)
      unfold scan
      split
      · exact inside
      · dsimp only
        split
        · exact next
        · exact ih next

theorem handle_cons {fd : ParentFd} {rest : List ParentFd} (batch : pool.pending = fd :: rest)
    (accepted : Bool) :
    pool.handle accepted = dispatch { pool with pending := rest } accepted fd := by
  unfold handle
  rw [batch]

/-- What holds in every run. -/
structure Steady (pool : ProcessPool) : Prop where
  start : pool.subProcessCount < pool.processNumber
  edges : ∀ i, (pool.children i).Edges
  known : ∀ i, .c2p i ∈ pool.pending → i < pool.processNumber

namespace Steady

theorem chooseChild_lt (steady : Steady pool) : pool.chooseChild < pool.processNumber :=
  scan_lt steady.start _ steady.start

theorem onChild (steady : Steady pool) (child : Nat) (change : Child → Child)
    (edges : (change (pool.children child)).Edges) : Steady (pool.onChild child change) where
  start := steady.start
  edges := (Function.forall_update_iff _ fun _ => Child.Edges).mpr
    ⟨edges, fun i _ => steady.edges i⟩
  known := steady.known

theorem handleListen (steady : Steady pool) (accepted : Bool) :
    Steady (pool.handleListen accepted) := by
  unfold ProcessPool.handleListen
  split
  · have moved := steady.onChild _ _ (steady.edges pool.chooseChild).notify
    exact ⟨Nat.mod_lt _ (Nat.zero_lt_of_lt steady.start), moved.edges, moved.known⟩
  · unfold reject
    split
    · exact ⟨steady.start, steady.edges, steady.known⟩
    · exact steady

theorem handle (steady : Steady pool) (accepted : Bool) : Steady (pool.handle accepted) := by
  cases batch : pool.pending with
  | nil =>
      unfold ProcessPool.handle
      rw [batch]
      exact steady
  | cons fd rest =>
      rw [handle_cons batch]
      have taken : Steady { pool with pending := rest } :=
        ⟨steady.start, steady.edges, fun i member =>
          steady.known i (batch ▸ List.mem_cons_of_mem fd member)⟩
      cases fd with
      | listenfd => exact taken.handleListen accepted
      | sigPipe => exact ⟨taken.start, taken.edges, taken.known⟩
      | c2p child =>
          have moved := taken.onChild child Child.heard (taken.edges child)
          exact ⟨moved.start, moved.edges, moved.known⟩
      | unset => exact taken

theorem epollWait (steady : Steady pool) {batch : List ParentFd}
    (ready : ∀ fd ∈ batch, pool.Ready fd) : Steady (pool.epollWait batch) where
  start := steady.start
  edges := by
    intro i
    unfold ProcessPool.epollWait
    dsimp only
    split
    · exact steady.edges i
    · exact steady.edges i
  known := fun i member => (ready (.c2p i) member).1

theorem exec (steady : Steady pool) (enabled : pool.Enabled event) :
    Steady (pool.exec event) := by
  cases event with
  | connect => exact ⟨steady.start, steady.edges, steady.known⟩
  | abort => exact ⟨steady.start, steady.edges, steady.known⟩
  | epollWait batch => exact steady.epollWait enabled.2.2.2
  | handle accepted => exact steady.handle accepted
  | childWait child =>
      exact steady.onChild _ _ ((steady.edges child).wait enabled.2.1 enabled.2.2)
  | newConnection child accepted =>
      have moved := steady.onChild child (fun place => place.newConnection accepted)
        ((steady.edges child).newConnection enabled.2.1 accepted)
      exact ⟨moved.start, moved.edges, moved.known⟩
  | serve child ret => exact steady.onChild _ _ ((steady.edges child).process pool.capacity ret)
  | exit child => exact steady.onChild _ _ (steady.edges child)

end Steady

theorem steady_init {processNumber : Nat} (atLeastOne : 1 ≤ processNumber) (capacity : Nat)
    (pid usedProcess : Nat → Int) (leftovers : Nat → ParentFd) :
    Steady (init processNumber capacity pid usedProcess leftovers) where
  start := atLeastOne
  edges := fun _ => Nat.le_refl 0
  known := fun _ member => nomatch member

/-! ## No child is lost -/

/-- A running child that is marked as used has a message in its pipe, a connection, or a
release that the parent has not handled. -/
def Held (used : Int) (child : Child) : Prop :=
  child.exited = false → used = 1 → 0 < child.outstanding

def LeaksNoChild (pool : ProcessPool) : Prop :=
  ∀ i < pool.processNumber, Held (pool.usedProcess i) (pool.children i)

/-- A child that is told to accept gets a connection, and a child that is done has room for its
release, or it has something else to do; and a report is the child's own at the place where it
is looked for, or not its last one. Children that have ended or are not marked do not matter. -/
def KeepsChild (pool : ProcessPool) : PoolEvent → Prop
  | .newConnection child accepted =>
      accepted = true ∨ pool.usedProcess child ≠ 1 ∨ 2 ≤ (pool.children child).outstanding
  | .handle _ => ∀ child ∈ pool.releasing,
      pool.releasedChild = some child ∨ (pool.children child).exited = true ∨
        pool.usedProcess child ≠ 1 ∨
        (pool.children child).reported < (pool.children child).outstanding
  | .serve child ret =>
      ret ≠ 0 ∨ (pool.children child).sent < pool.capacity ∨ pool.usedProcess child ≠ 1 ∨
        2 ≤ (pool.children child).outstanding
  | _ => True

instance (used : Int) (child : Child) : Decidable (Held used child) :=
  inferInstanceAs (Decidable (_ → _ → _))

instance (pool : ProcessPool) : Decidable pool.LeaksNoChild :=
  inferInstanceAs (Decidable (∀ i < pool.processNumber, _))

/-- A child that has nothing to do and has not been joined can be given a connection. -/
theorem LeaksNoChild.isFree (kept : LeaksNoChild pool) {i : Nat} (runs : pool.Runs i)
    (idle : (pool.children i).outstanding = 0) (present : pool.pid i ≠ -1) :
    pool.isFree i = true := by
  have unmarked : pool.usedProcess i ≠ 1 := by
    intro marked
    have busy := kept i runs.1 runs.2 marked
    omega
  unfold ProcessPool.isFree
  simp [present, unmarked]

theorem leaksNoChild_onChild (kept : LeaksNoChild pool) {child : Nat}
    (inside : child < pool.processNumber) (change : Child → Child) :
    LeaksNoChild (pool.onChild child change) ↔
      Held (pool.usedProcess child) (change (pool.children child)) := by
  constructor
  · intro after
    have own := after child inside
    unfold ProcessPool.onChild at own
    simpa only [Function.update_self] using own
  · intro own i _
    unfold ProcessPool.onChild
    by_cases same : i = child
    · subst same
      simpa only [Function.update_self] using own
    · simpa only [Function.update_of_ne same] using kept i ‹_›

theorem LeaksNoChild.onChild (kept : LeaksNoChild pool) {child : Nat}
    (inside : child < pool.processNumber) {change : Child → Child}
    (held : Held (pool.usedProcess child) (pool.children child) →
      Held (pool.usedProcess child) (change (pool.children child))) :
    LeaksNoChild (pool.onChild child change) :=
  (leaksNoChild_onChild kept inside change).mpr (held (kept child inside))

theorem LeaksNoChild.handleListen (kept : LeaksNoChild pool) (accepted : Bool) :
    LeaksNoChild (pool.handleListen accepted) := by
  unfold ProcessPool.handleListen
  split
  · intro i inside
    unfold assign
    by_cases same : i = pool.chooseChild
    · subst same
      intro _ _
      simp
    · simpa only [Function.update_of_ne same] using kept i inside
  · unfold reject
    split
    · exact kept
    · exact kept

theorem handleRelease_usedProcess (child i : Nat) : (pool.handleRelease child).usedProcess i =
    if pool.releasedChild = some i then 0 else pool.usedProcess i := by
  unfold handleRelease
  cases pool.releasedChild with
  | none => simp
  | some released =>
      by_cases same : i = released
      · simp [same]
      · simp [Function.update_of_ne same, Ne.symm same]

theorem handleRelease_children (child i : Nat) : (pool.handleRelease child).children i =
    if i = child then (pool.children child).heard else pool.children i := by
  unfold handleRelease
  exact Function.update_apply ..

theorem leaksNoChild_handleRelease (kept : LeaksNoChild pool) {child : Nat}
    (inside : child < pool.processNumber) :
    LeaksNoChild (pool.handleRelease child) ↔
      pool.releasedChild = some child ∨ (pool.children child).exited = true ∨
        pool.usedProcess child ≠ 1 ∨
        (pool.children child).reported < (pool.children child).outstanding := by
  have heard := (pool.children child).outstanding_heard
  constructor
  · intro after
    have own := after child inside
    rw [handleRelease_usedProcess, handleRelease_children, if_pos rfl] at own
    by_cases ours : pool.releasedChild = some child
    · exact .inl ours
    · rw [if_neg ours] at own
      right
      cases running : (pool.children child).exited with
      | true => exact .inl rfl
      | false =>
          right
          by_cases marked : pool.usedProcess child = 1
          · have busy := own running marked
            right
            omega
          · exact .inl marked
  · intro condition i within
    rw [handleRelease_usedProcess, handleRelease_children]
    intro running marked
    have unmarked : pool.releasedChild ≠ some i := by
      intro released
      rw [if_pos released] at marked
      exact absurd marked (by decide)
    rw [if_neg unmarked] at marked
    by_cases same : i = child
    · subst same
      rw [if_pos rfl] at running ⊢
      rcases condition with released | ended | free | more
      · exact absurd released unmarked
      · exact nomatch ended.symm.trans running
      · exact absurd marked free
      · omega
    · rw [if_neg same] at running ⊢
      exact kept i within running marked

theorem leaksNoChild_exec (steady : Steady pool) (kept : LeaksNoChild pool)
    (enabled : pool.Enabled event) : LeaksNoChild (pool.exec event) ↔ pool.KeepsChild event := by
  cases event with
  | connect => exact iff_of_true kept trivial
  | abort => exact iff_of_true kept trivial
  | epollWait batch =>
      refine iff_of_true (fun i inside => ?_) trivial
      have before := kept i inside
      unfold exec epollWait
      dsimp only
      split
      · intro running marked
        rw [Child.outstanding_report]
        exact before running marked
      · exact before
  | handle accepted =>
      obtain ⟨nonempty, -, -⟩ := enabled
      cases batch : pool.pending with
      | nil => exact absurd batch nonempty
      | cons fd rest =>
          have taken : LeaksNoChild { pool with pending := rest } := kept
          have handled := handle_cons batch accepted
          simp only [exec, KeepsChild, releasing, handled, batch, List.head?_cons,
            Option.bind_some]
          cases fd with
          | listenfd => exact iff_of_true (taken.handleListen accepted) (fun _ => nofun)
          | sigPipe => exact iff_of_true taken (fun _ => nofun)
          | c2p child =>
              have inside := steady.known child (batch ▸ List.mem_cons_self)
              have released := leaksNoChild_handleRelease taken inside
              refine Iff.trans released ⟨fun met other about => ?_, fun met => met child rfl⟩
              obtain rfl : child = other := Option.some.inj about
              exact met
          | unset => exact iff_of_true taken (fun _ => nofun)
  | childWait child =>
      exact iff_of_true (kept.onChild enabled.1.1.1 id) trivial
  | newConnection child accepted =>
      obtain ⟨⟨⟨inside, running⟩, -⟩, polled, -⟩ := enabled
      have counted := Child.outstanding_newConnection (steady.edges child) polled accepted
      have changed := leaksNoChild_onChild kept inside fun place => place.newConnection accepted
      refine Iff.trans (show _ ↔ _ from changed) ?_
      have still : ((pool.children child).newConnection accepted).exited = false := running
      unfold Held KeepsChild
      cases accepted
      · simp only [Bool.toNat_false] at counted
        simp only [still, true_implies, Bool.false_eq_true, false_or]
        constructor
        · intro busy
          by_cases marked : pool.usedProcess child = 1
          · have more := busy marked
            right
            omega
          · exact .inl marked
        · rintro (free | more) marked
          · exact absurd marked free
          · omega
      · simp only [Bool.toNat_true] at counted
        simp only [true_or, iff_true]
        intro _ marked
        have busy := kept child inside running marked
        omega
  | serve child ret =>
      obtain ⟨⟨⟨inside, running⟩, -⟩, connected⟩ := enabled
      have counted := Child.outstanding_process connected pool.capacity ret
      have before := kept child inside running
      have changed := leaksNoChild_onChild kept inside fun place => place.process pool.capacity ret
      refine Iff.trans (show _ ↔ _ from changed) ?_
      unfold Held
      simp only [KeepsChild, Child.exited_process]
      rw [← or_assoc]
      by_cases delivered : ret ≠ 0 ∨ (pool.children child).sent < pool.capacity
      · rw [if_pos delivered, Nat.add_zero] at counted
        rw [counted]
        exact iff_of_true (fun _ => before) (.inl delivered)
      · rw [if_neg delivered] at counted
        rw [or_iff_right delivered]
        constructor
        · intro busy
          by_cases marked : pool.usedProcess child = 1
          · have more := busy running marked
            right
            omega
          · exact .inl marked
        · rintro (free | more) _ marked
          · exact absurd marked free
          · omega
  | exit child =>
      refine iff_of_true (kept.onChild enabled.1 fun _ ended => ?_) trivial
      exact nomatch ended

/-! ## One client for each child -/

def OneClient (pool : ProcessPool) : Prop :=
  ∀ i < pool.processNumber, (pool.children i).outstanding ≤ 1

/-- A child that is assigned a connection has nothing outstanding. -/
def AssignsIdle (pool : ProcessPool) (event : PoolEvent) : Prop :=
  ∀ i ∈ pool.assignedChild event, (pool.children i).outstanding = 0

/-- No child ends, and the child marked as free after a report is the one that sent the
release, or has nothing outstanding. -/
def ReleasesOwn (pool : ProcessPool) : PoolEvent → Prop
  | .handle _ => ∀ child ∈ pool.releasing, ∀ i ∈ pool.releasedChild,
      i = child ∨ (pool.children i).outstanding = 0
  | .exit _ => False
  | _ => True

instance (pool : ProcessPool) : Decidable pool.OneClient :=
  inferInstanceAs (Decidable (∀ i < pool.processNumber, _))

instance (pool : ProcessPool) : ∀ event, Decidable (pool.ReleasesOwn event)
  | .handle _ => inferInstanceAs (Decidable (∀ child ∈ pool.releasing, ∀ i ∈ pool.releasedChild,
      i = child ∨ (pool.children i).outstanding = 0))
  | .exit _ => inferInstanceAs (Decidable False)
  | .connect => inferInstanceAs (Decidable True)
  | .abort => inferInstanceAs (Decidable True)
  | .epollWait _ => inferInstanceAs (Decidable True)
  | .childWait _ => inferInstanceAs (Decidable True)
  | .newConnection _ _ => inferInstanceAs (Decidable True)
  | .serve _ _ => inferInstanceAs (Decidable True)

/-- The mark of a child, the report the parent still has to handle, and the child. -/
structure Assigned (used : Int) (inBatch : Prop) (child : Child) : Prop where
  one : child.outstanding ≤ 1
  idle : used ≠ 1 → child.outstanding = 0
  raised : child.releaseEdge = true → 1 ≤ child.raised
  reported : inBatch → 1 ≤ child.reported

structure Exclusive (pool : ProcessPool) : Prop where
  child : ∀ i, Assigned (pool.usedProcess i) (.c2p i ∈ pool.pending) (pool.children i)
  distinct : pool.pending.Nodup

namespace Assigned

variable {used : Int} {inBatch : Prop} {child : Child}

/-- A step that leaves the releases alone and does not add to what is outstanding. -/
theorem shrink (assigned : Assigned used inBatch child) {next : Child}
    (fewer : next.outstanding ≤ child.outstanding) (edge : next.releaseEdge = child.releaseEdge)
    (raised : next.raised = child.raised) (reported : next.reported = child.reported) :
    Assigned used inBatch next where
  one := Nat.le_trans fewer assigned.one
  idle := fun free => Nat.le_zero.mp (fewer.trans_eq (assigned.idle free))
  raised := by
    rw [edge, raised]
    exact assigned.raised
  reported := by
    rw [reported]
    exact assigned.reported

theorem notify (assigned : Assigned used inBatch child) (free : used ≠ 1) :
    Assigned 1 inBatch child.notify where
  one := by
    have idle := assigned.idle free
    rw [Child.outstanding_notify]
    omega
  idle := fun unmarked => absurd rfl unmarked
  raised := assigned.raised
  reported := assigned.reported

theorem heard (assigned : Assigned used inBatch child) (reported : inBatch) (mark : Int)
    {later : Prop} (last : ¬later) : Assigned mark later child.heard := by
  have counted := child.outstanding_heard
  have one := assigned.one
  have atLeastOne := assigned.reported reported
  have empty : child.heard.outstanding = 0 := by omega
  exact ⟨by omega, fun _ => empty, assigned.raised, fun again => absurd again last⟩

theorem report (assigned : Assigned used inBatch child) (ready : child.releaseEdge = true) :
    Assigned used True child.report where
  one := Child.outstanding_report.trans_le assigned.one
  idle := fun free => Child.outstanding_report.trans (assigned.idle free)
  raised := fun edge => nomatch edge
  reported := fun _ => Nat.le_trans (assigned.raised ready) (Nat.le_add_left _ _)

theorem process (assigned : Assigned used inBatch child) (connected : 0 < child.connections)
    (capacity : Nat) (ret : Int) : Assigned used inBatch (child.process capacity ret) := by
  have fewer := Child.outstanding_process_le connected capacity ret
  refine ⟨Nat.le_trans fewer assigned.one,
    fun free => Nat.le_zero.mp (fewer.trans_eq (assigned.idle free)), ?_, ?_⟩
  · unfold Child.process Child.release
    split
    · split
      · exact fun _ => Nat.le_add_left _ _
      · exact assigned.raised
    · exact assigned.raised
  · unfold Child.process Child.release
    split
    · split
      · exact assigned.reported
      · exact assigned.reported
    · exact assigned.reported

end Assigned

namespace Exclusive

theorem onChild (exclusive : Exclusive pool) (child : Nat) (change : Child → Child)
    (changed : Assigned (pool.usedProcess child) (.c2p child ∈ pool.pending)
      (change (pool.children child))) : Exclusive (pool.onChild child change) where
  child := (Function.forall_update_iff pool.children fun i =>
    Assigned (pool.usedProcess i) (ParentFd.c2p i ∈ pool.pending)).mpr
      ⟨changed, fun i _ => exclusive.child i⟩
  distinct := exclusive.distinct

theorem free_idle (exclusive : Exclusive pool) {i : Nat} (free : pool.isFree i = true) :
    pool.usedProcess i ≠ 1 ∧ (pool.children i).outstanding = 0 := by
  unfold isFree at free
  simp only [Bool.and_eq_true, decide_eq_true_eq] at free
  exact ⟨free.2, (exclusive.child i).idle free.2⟩

theorem handleListen (exclusive : Exclusive pool) (accepted : Bool) :
    Exclusive (pool.handleListen accepted) := by
  unfold ProcessPool.handleListen
  split
  · obtain ⟨unmarked, -⟩ := exclusive.free_idle ‹_›
    refine ⟨fun i => ?_, exclusive.distinct⟩
    have before := exclusive.child i
    unfold assign
    by_cases same : i = pool.chooseChild
    · subst same
      simpa only [Function.update_self] using before.notify unmarked
    · simpa only [Function.update_of_ne same] using before
  · unfold reject
    split
    · exact ⟨exclusive.child, exclusive.distinct⟩
    · exact exclusive

theorem handleRelease {child : Nat} {rest : List ParentFd}
    (exclusive : Exclusive { pool with pending := .c2p child :: rest })
    (own : ∀ i ∈ pool.releasedChild, i = child ∨ (pool.children i).outstanding = 0) :
    Exclusive (ProcessPool.handleRelease { pool with pending := rest } child) := by
  obtain ⟨absent, distinct⟩ := List.nodup_cons.mp exclusive.distinct
  refine ⟨fun i => ?_, distinct⟩
  have before := exclusive.child i
  rw [handleRelease_usedProcess, handleRelease_children]
  by_cases same : i = child
  · subst same
    rw [if_pos rfl]
    exact before.heard List.mem_cons_self _ absent
  · rw [if_neg same]
    refine ⟨before.one, fun free => ?_, before.raised, fun member =>
      before.reported (List.mem_cons_of_mem _ member)⟩
    by_cases released : pool.releasedChild = some i
    · exact (own i released).resolve_left same
    · exact before.idle fun marked => free ((if_neg released).trans marked)

theorem epollWait (exclusive : Exclusive pool) {batch : List ParentFd} (distinct : batch.Nodup)
    (ready : ∀ fd ∈ batch, pool.Ready fd) : Exclusive (pool.epollWait batch) := by
  refine ⟨fun i => ?_, distinct⟩
  have before := exclusive.child i
  unfold ProcessPool.epollWait
  dsimp only
  split
  · obtain ⟨-, -, edge⟩ := ready (.c2p i) ‹_›
    have after := before.report edge
    exact ⟨after.one, after.idle, after.raised, fun _ => after.reported trivial⟩
  · exact ⟨before.one, before.idle, before.raised, fun member => absurd member ‹_›⟩

theorem exec (steady : Steady pool) (exclusive : Exclusive pool) (enabled : pool.Enabled event)
    (own : pool.ReleasesOwn event) : Exclusive (pool.exec event) := by
  cases event with
  | connect => exact ⟨exclusive.child, exclusive.distinct⟩
  | abort => exact ⟨exclusive.child, exclusive.distinct⟩
  | epollWait batch => exact exclusive.epollWait enabled.2.2.1 enabled.2.2.2
  | handle accepted =>
      cases batch : pool.pending with
      | nil => exact absurd batch enabled.1
      | cons fd rest =>
          have started : Exclusive { pool with pending := fd :: rest } := by
            rw [← batch]
            exact exclusive
          have taken : Exclusive { pool with pending := rest } :=
            ⟨fun i => ⟨(started.child i).one, (started.child i).idle, (started.child i).raised,
                fun member => (started.child i).reported (List.mem_cons_of_mem fd member)⟩,
              (List.nodup_cons.mp started.distinct).2⟩
          have handled := handle_cons batch accepted
          unfold ProcessPool.exec
          simp only [handled]
          cases fd with
          | listenfd => exact taken.handleListen accepted
          | sigPipe => exact ⟨taken.child, taken.distinct⟩
          | c2p child =>
              refine started.handleRelease (own child ?_)
              simp [releasing, batch, ParentFd.child?]
          | unset => exact taken
  | childWait child =>
      exact exclusive.onChild _ _ ((exclusive.child child).shrink (Nat.le_refl _) rfl rfl rfl)
  | newConnection child accepted =>
      have counted :=
        Child.outstanding_newConnection (steady.edges child) enabled.2.1 accepted
      have most := accepted.toNat_le
      have moved := exclusive.onChild child (fun place => place.newConnection accepted)
        ((exclusive.child child).shrink (by omega) rfl rfl rfl)
      exact ⟨moved.child, moved.distinct⟩
  | serve child ret =>
      have moved := exclusive.onChild child (fun place => place.process pool.capacity ret)
        ((exclusive.child child).process enabled.2 pool.capacity ret)
      exact moved
  | exit child => exact own.elim

theorem oneClient (exclusive : Exclusive pool) : OneClient pool :=
  fun i _ => (exclusive.child i).one

theorem assignsIdle (exclusive : Exclusive pool) (event : PoolEvent) :
    AssignsIdle pool event := by
  intro i assigned
  cases event with
  | handle accepted =>
      simp only [assignedChild, Option.mem_def, Option.ite_none_right_eq_some] at assigned
      obtain ⟨⟨-, free⟩, same⟩ := assigned
      obtain rfl : pool.chooseChild = i := Option.some.inj same
      exact (exclusive.free_idle free).2
  | connect => exact nomatch assigned
  | abort => exact nomatch assigned
  | epollWait batch => exact nomatch assigned
  | childWait child => exact nomatch assigned
  | newConnection child accepted => exact nomatch assigned
  | serve child ret => exact nomatch assigned
  | exit child => exact nomatch assigned

end Exclusive

theorem exclusive_init (processNumber capacity : Nat) (pid : Nat → Int)
    (leftovers : Nat → ParentFd) :
    Exclusive (init processNumber capacity pid (fun _ => 0) leftovers) where
  child := fun _ => ⟨Nat.zero_le 1, fun _ => rfl, nofun, nofun⟩
  distinct := List.nodup_nil

end ProcessPool

open ProcessPool in
/-- If every report frees the child that sent it, no child has more than one assignment,
and a child is only chosen when it has none. -/
theorem processPool_oneClient {processNumber : Nat} (atLeastOne : 1 ≤ processNumber)
    (capacity : Nat) (pid : Nat → Int) (leftovers : Nat → ParentFd) (events : List PoolEvent)
    (run : AllowedRun (fun pool event => Enabled pool event ∧ ReleasesOwn pool event) exec
      (init processNumber capacity pid (fun _ => 0) leftovers) events) :
    Throughout OneClient exec (init processNumber capacity pid (fun _ => 0) leftovers) events ∧
      AllowedRun AssignsIdle exec (init processNumber capacity pid (fun _ => 0) leftovers)
        events := by
  have keeps : ∀ pool event, Steady pool ∧ Exclusive pool →
      Enabled pool event ∧ ReleasesOwn pool event →
        Steady (exec pool event) ∧ Exclusive (exec pool event) :=
    fun pool event ⟨steady, exclusive⟩ ⟨enabled, own⟩ =>
      ⟨steady.exec enabled, exclusive.exec steady enabled own⟩
  have start := And.intro (steady_init atLeastOne capacity pid (fun _ => 0) leftovers)
    (exclusive_init processNumber capacity pid leftovers)
  constructor
  · exact (run.throughout keeps start).mono fun pool invariant => invariant.2.oneClient
  · exact (run.and_invariant keeps start).mono fun pool event invariant =>
      invariant.1.2.assignsIdle event

/-- Two children take a connection each and serve it to its end. The release of child 1 is
handled behind a connection that is turned away, that of child 0 in a batch of its own, and
the next connection is child 0's again. -/
def sampleService : List PoolEvent :=
  [.connect, .epollWait [.listenfd], .handle false, .childWait 0, .newConnection 0 true,
    .connect, .epollWait [.listenfd], .handle false, .childWait 1, .newConnection 1 true,
    .serve 0 1, .serve 1 0, .connect, .epollWait [.listenfd, .c2p 1], .handle true, .handle false,
    .serve 0 0, .epollWait [.c2p 0], .handle false,
    .connect, .epollWait [.listenfd], .handle false]

theorem processPool_oneClient_sampleService :
    Throughout ProcessPool.OneClient ProcessPool.exec
        (ProcessPool.init 2 278 (fun _ => 7) (fun _ => 0) fun _ => .unset) sampleService ∧
      AllowedRun ProcessPool.AssignsIdle ProcessPool.exec
        (ProcessPool.init 2 278 (fun _ => 7) (fun _ => 0) fun _ => .unset) sampleService :=
  processPool_oneClient (by decide) 278 _ _ sampleService (by decide +kernel)

/-- Both children serve a client to its end. One batch holds their two releases and,
between them, the next connection, which goes to child 0: the second release then frees
child 0 again, since `events[0]` is still about its pipe. -/
def doubleRelease : List PoolEvent :=
  [.connect, .epollWait [.listenfd], .handle false,
    .connect, .epollWait [.listenfd], .handle false,
    .childWait 0, .newConnection 0 true, .childWait 1, .newConnection 1 true,
    .serve 0 0, .connect, .serve 1 0,
    .epollWait [.c2p 0, .listenfd, .c2p 1], .handle false, .handle false, .handle false,
    .connect, .epollWait [.listenfd], .handle false]

theorem processPool_twoClients :
    ¬∀ (processNumber capacity : Nat) (pid : Nat → Int) (leftovers : Nat → ParentFd)
        (events : List PoolEvent), 1 ≤ processNumber →
      AllowedRun ProcessPool.Enabled ProcessPool.exec
        (ProcessPool.init processNumber capacity pid (fun _ => 0) leftovers) events →
      Throughout ProcessPool.OneClient ProcessPool.exec
          (ProcessPool.init processNumber capacity pid (fun _ => 0) leftovers) events ∧
        AllowedRun ProcessPool.AssignsIdle ProcessPool.exec
          (ProcessPool.init processNumber capacity pid (fun _ => 0) leftovers) events := by
  intro claimed
  obtain ⟨oneClient, -⟩ := claimed 2 278 (fun _ => 7) (fun _ => .unset) doubleRelease (by decide)
    (by decide +kernel)
  exact absurd oneClient (by decide +kernel)

open ProcessPool in
/-- No marked child is without an assignment in any state of a run exactly if no mark was
there from the start and every step keeps the child it is about. -/
theorem processPool_leaksNoChild_iff {processNumber : Nat} (atLeastOne : 1 ≤ processNumber)
    (capacity : Nat) (pid usedProcess : Nat → Int) (leftovers : Nat → ParentFd)
    (events : List PoolEvent)
    (run : AllowedRun Enabled exec (init processNumber capacity pid usedProcess leftovers)
      events) :
    Throughout LeaksNoChild exec (init processNumber capacity pid usedProcess leftovers) events ↔
      (∀ i < processNumber, usedProcess i ≠ 1) ∧
        AllowedRun KeepsChild exec (init processNumber capacity pid usedProcess leftovers)
          events := by
  have exactly := run.throughout_iff (fun _ _ => Steady.exec)
    (fun _ _ => leaksNoChild_exec) (steady_init atLeastOne capacity pid usedProcess leftovers)
  refine exactly.trans (and_congr_left fun _ => ?_)
  constructor
  · intro kept i inside marked
    exact absurd (kept i inside rfl marked) (Nat.lt_irrefl 0)
  · exact fun unmarked i inside _ marked => absurd marked (unmarked i inside)

theorem processPool_leaksNoChild_iff_sampleService :
    Throughout ProcessPool.LeaksNoChild ProcessPool.exec
        (ProcessPool.init 2 278 (fun _ => 7) (fun _ => 0) fun _ => .unset) sampleService ↔
      (∀ i < 2, (fun _ : Nat => (0 : Int)) i ≠ 1) ∧
        AllowedRun ProcessPool.KeepsChild ProcessPool.exec
          (ProcessPool.init 2 278 (fun _ => 7) (fun _ => 0) fun _ => .unset) sampleService :=
  processPool_leaksNoChild_iff (by decide) 278 _ _ _ sampleService (by decide +kernel)

/-- A child serves a second client after its pipe is full. -/
def fullPipe : List PoolEvent :=
  [.connect, .epollWait [.listenfd], .handle false, .childWait 0, .newConnection 0 true,
    .serve 0 0, .epollWait [.c2p 0], .handle false,
    .connect, .epollWait [.listenfd], .handle false, .childWait 0, .newConnection 0 true,
    .serve 0 0]

/-- It keeps its mark and waits for ever. -/
example : AllowedRun ProcessPool.Enabled ProcessPool.exec
      (ProcessPool.init 1 1 (fun _ => 7) (fun _ => 0) fun _ => .unset) fullPipe ∧
    ¬Throughout ProcessPool.LeaksNoChild ProcessPool.exec
      (ProcessPool.init 1 1 (fun _ => 7) (fun _ => 0) fun _ => .unset) fullPipe := by
  decide +kernel

/-- The connection is aborted between the message to the child and its `accept`. -/
def abortedConnection : List PoolEvent :=
  [.connect, .epollWait [.listenfd], .handle false, .abort, .childWait 0,
    .newConnection 0 false]

theorem processPool_leaksChild :
    ¬∀ (processNumber capacity : Nat) (pid usedProcess : Nat → Int) (leftovers : Nat → ParentFd)
        (events : List PoolEvent), 1 ≤ processNumber →
      AllowedRun ProcessPool.Enabled ProcessPool.exec
        (ProcessPool.init processNumber capacity pid usedProcess leftovers) events →
      Throughout ProcessPool.LeaksNoChild ProcessPool.exec
        (ProcessPool.init processNumber capacity pid usedProcess leftovers) events := by
  intro claimed
  have kept := claimed 1 278 (fun _ => 7) (fun _ => 0) (fun _ => .unset) abortedConnection
    (by decide) (by decide)
  exact absurd kept (by decide)

end HPLinuxServer.Pool
