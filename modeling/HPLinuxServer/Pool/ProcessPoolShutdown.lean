import Mathlib.Algebra.BigOperators.Group.Finset.Basic
import Mathlib.Algebra.Order.BigOperators.Group.Finset
import HPLinuxServer.Pool.ProcessPoolAlert
import HPLinuxServer.Refinement.Stuttering

/-!
# Process pool: the shutdown

Where the processes of the pool come to rest when no more signals are sent, no child
crashes and none of them blocks.
-/

set_option autoImplicit false

namespace HPLinuxServer.Pool

open Kernel Refinement

/-- A step that the processes of the pool and the kernel take by themselves. -/
def FamilyStep.isInternal : FamilyStep → Bool
  | signal _ _ => false
  | crash _ => false
  | block _ => false
  | deliver _ _ => true
  | started _ => true
  | poll _ => true
  | receive _ => true
  | handle _ _ => true
  | wait _ => true
  | exit _ => true

/-! ## The price of what is still to be done -/

/-- The steps that a place still causes, where each signal that is handled has a price. -/
def MemberPlace.left (price : Nat) : MemberPlace → Nat
  | starting => 1
  | polling => 0
  | receiving => 3
  | handling signals => price * signals.length + 2
  | joining signals => price * signals.length + 3
  | spinning => 0
  | sending => 0
  | leaving => 1
  | ended => 1
  | reaped => 0

namespace Member

variable {member : Member} {signal : PoolSignal} {price : Nat}

def left (price : Nat) (member : Member) : Nat :=
  (price + 5) * member.inbox.pending.length + price * member.inbox.pipe.waiting.length +
    4 * member.inbox.pipe.raised.toNat + member.place.left price

theorem left_sent (member : Member) (signal : PoolSignal) (price : Nat) :
    (member.sent signal).left price ≤ member.left price + (price + 5) := by
  unfold sent
  split
  · unfold left SignalPipe.raise
    dsimp only
    split
    · omega
    · dsimp only
      rw [List.length_append, List.length_singleton, Nat.mul_succ]
      omega
  · omega

theorem left_delivered (capacity : Nat) (pending : signal ∈ member.inbox.pending) :
    (member.delivered capacity signal).left price < member.left price := by
  have shorter := List.length_erase_of_mem pending
  obtain ⟨rest, counted⟩ := Nat.exists_eq_add_one.mpr (List.length_pos_of_mem pending)
  have before := Bool.toNat_le member.inbox.pipe.raised
  unfold left delivered SignalPipe.deliver Watch.arrive
  dsimp only
  rw [shorter, counted, Nat.add_sub_cancel, Nat.mul_succ]
  split
  · dsimp only
    rw [List.length_append, List.length_singleton, Nat.mul_succ, Bool.toNat_true]
    omega
  · omega

theorem left_ignored (pending : signal ∈ member.inbox.pending) :
    (member.ignored signal).left price < member.left price := by
  have shorter := List.length_erase_of_mem pending
  obtain ⟨rest, counted⟩ := Nat.exists_eq_add_one.mpr (List.length_pos_of_mem pending)
  unfold left ignored
  dsimp only
  rw [shorter, counted, Nat.add_sub_cancel, Nat.mul_succ]
  omega

theorem left_polled (polling : member.place = .polling)
    (raised : member.inbox.pipe.raised = true) :
    member.polled.left price < member.left price := by
  unfold left polled SignalPipe.report Watch.report
  dsimp only
  rw [polling, raised]
  simp only [MemberPlace.left, Bool.toNat_true, Bool.toNat_false]
  omega

theorem left_received (receiving : member.place = .receiving) :
    member.received.left price < member.left price := by
  have parts : member.inbox.pipe.waiting.length = member.inbox.received.length +
      (member.inbox.pipe.waiting.drop SignalPipe.bufferSize).length := by
    rw [← List.length_append]
    exact congrArg List.length (List.take_append_drop _ _).symm
  unfold left received SignalPipe.receive Watch.handled
  dsimp only
  rw [receiving, parts, Nat.mul_add]
  simp only [MemberPlace.left]
  omega

theorem left_handledAll (handling : member.place = .handling []) :
    member.handledAll.left price < member.left price := by
  unfold left handledAll
  dsimp only
  rw [handling]
  split
  · simp only [MemberPlace.left, List.length_nil]
    omega
  · simp only [MemberPlace.left, List.length_nil]
    omega

theorem left_handledByChild {rest : List PoolSignal}
    (handling : member.place = .handling (signal :: rest)) (unset : Int) :
    (member.handledByChild unset rest signal).left 1 < member.left 1 := by
  have before : member.left 1 = (1 + 5) * member.inbox.pending.length +
      1 * member.inbox.pipe.waiting.length + 4 * member.inbox.pipe.raised.toNat +
        (1 * (rest.length + 1) + 2) := by
    unfold left
    rw [handling]
    rfl
  rw [before]
  cases signal with
  | sigchld =>
      unfold handledByChild
      dsimp only
      split
      · simp only [left, MemberPlace.left]
        omega
      · simp only [left, MemberPlace.left]
        omega
  | sigterm =>
      simp only [handledByChild, left, MemberPlace.left]
      omega
  | sigint =>
      simp only [handledByChild, left, MemberPlace.left]
      omega

end Member

namespace Family

variable {setup : FamilySetup} {family : Family} {i : Nat}

/-- What the parent pays for a signal: SIGTERM sends one to every child. -/
def price (processNumber : Nat) : Nat := 6 * processNumber + 2

/-- A child that has not ended will make the kernel send SIGCHLD to the parent. -/
def childLeft (processNumber : Nat) (child : Member) : Nat :=
  child.left 1 + if child.place.isAlive then price processNumber + 6 else 0

def left (family : Family) : Nat :=
  family.parent.left (price family.processNumber) +
    ∑ i ∈ Finset.range family.processNumber, childLeft family.processNumber (family.children i)

theorem sum_update (weight : Member → Nat) (children : Nat → Member) {number : Nat}
    (inside : i < number) (next : Member) :
    (∑ j ∈ Finset.range number, weight (Function.update children i next j)) + weight (children i) =
      (∑ j ∈ Finset.range number, weight (children j)) + weight next := by
  have member := Finset.mem_range.mpr inside
  rw [← Finset.add_sum_erase _ _ member, ← Finset.add_sum_erase _ (fun j => weight (children j)) member,
    Function.update_self]
  have others : ∑ j ∈ (Finset.range number).erase i, weight (Function.update children i next j) =
      ∑ j ∈ (Finset.range number).erase i, weight (children j) :=
    Finset.sum_congr rfl fun j among => by
      rw [Function.update_of_ne (Finset.ne_of_mem_erase among)]
  rw [others]
  omega

theorem left_setChild (inside : i < family.processNumber) {member : Member}
    (less : childLeft family.processNumber member <
      childLeft family.processNumber (family.children i)) :
    (family.setMember (.child i) member).left < family.left := by
  have moved := sum_update (childLeft family.processNumber) family.children inside member
  unfold left setMember
  dsimp only
  omega

theorem left_setParent {member : Member}
    (less : member.left (price family.processNumber) <
      family.parent.left (price family.processNumber)) :
    (family.setMember .parent member).left < family.left := by
  unfold left setMember
  dsimp only
  omega

/-- Of two places of a child that has not ended. -/
theorem childLeft_lt {member next : Member} (less : next.left 1 < member.left 1)
    (alive : next.place.isAlive = true → member.place.isAlive = true) (number : Nat) :
    childLeft number next < childLeft number member := by
  unfold childLeft
  split
  · next lives =>
      rw [if_pos (alive lives)]
      omega
  · omega

theorem left_childEnds (inside : i < family.processNumber)
    (alive : (family.children i).place.isAlive = true)
    (busy : 0 < (family.children i).left 1) : (family.childEnds i).left < family.left := by
  have moved := sum_update (childLeft family.processNumber) family.children inside
    (family.children i).ending
  have before : childLeft family.processNumber (family.children i) =
      (family.children i).left 1 + (price family.processNumber + 6) := by
    unfold childLeft
    rw [if_pos alive]
  have after : childLeft family.processNumber (family.children i).ending = 1 := rfl
  have sent := family.parent.left_sent .sigchld (price family.processNumber)
  unfold left childEnds
  dsimp only
  omega

theorem childLeft_sent (number : Nat) (child : Member) (signal : PoolSignal) :
    childLeft number (child.sent signal) ≤ childLeft number child + 6 := by
  have sent := child.left_sent signal 1
  unfold childLeft
  rw [Member.sent_place]
  omega

theorem left_killChildren {signal : PoolSignal} {rest : List PoolSignal}
    (handling : family.parent.place = .handling (signal :: rest)) :
    ({ family.killChildren with
      parent := { family.parent with place := .handling rest } } : Family).left < family.left := by
  have paid : ∑ i ∈ Finset.range family.processNumber,
      childLeft family.processNumber (family.killChildren.children i) ≤
        ∑ i ∈ Finset.range family.processNumber,
          (childLeft family.processNumber (family.children i) + 6) := by
    refine Finset.sum_le_sum fun i _ => ?_
    unfold killChildren
    dsimp only
    split
    · exact childLeft_sent _ _ _
    · omega
  rw [Finset.sum_add_distrib, Finset.sum_const_nat (fun _ _ => rfl), Finset.card_range] at paid
  have before : (price family.processNumber) * (rest.length + 1) =
      price family.processNumber * rest.length + price family.processNumber := Nat.mul_succ _ _
  have cost : price family.processNumber = 6 * family.processNumber + 2 := rfl
  unfold left Member.left
  rw [handling]
  simp only [MemberPlace.left, List.length_cons]
  have same : family.killChildren.processNumber = family.processNumber := rfl
  rw [same, before]
  omega

theorem left_handle {target : Relative} (inside : family.Exists target)
    (handling : (family.member target).place.isHandling = true) (unset : Int) :
    (family.handle target unset).left < family.left := by
  obtain ⟨signals, place⟩ := MemberPlace.exists_handling handling
  have alive : (family.member target).place.isAlive = true := by rw [place]; rfl
  unfold handle
  rw [place]
  cases target with
  | child i =>
      cases signals with
      | nil =>
          exact left_setChild inside
            (childLeft_lt (Member.left_handledAll place) (fun _ => alive) _)
      | cons signal signals =>
          exact left_setChild inside
            (childLeft_lt (Member.left_handledByChild place unset) (fun _ => alive) _)
  | parent =>
      cases signals with
      | nil => exact left_setParent (Member.left_handledAll place)
      | cons signal signals =>
          cases signal with
          | sigterm => exact left_killChildren place
          | sigint => exact left_killChildren place
          | sigchld =>
              have here : family.parent.place = .handling (.sigchld :: signals) := place
              refine left_setParent ?_
              unfold Member.left
              rw [here]
              simp only [MemberPlace.left, List.length_cons, Nat.mul_succ]
              have cost : price family.processNumber = 6 * family.processNumber + 2 := rfl
              omega

theorem exec_left {step : FamilyStep} (enabled : family.Enabled step)
    (internal : step.isInternal = true) : (family.exec setup step).left < family.left := by
  cases step with
  | signal target signal => exact nomatch internal
  | crash i => exact nomatch internal
  | block target => exact nomatch internal
  | deliver target signal =>
      obtain ⟨inside, alive, pending⟩ := enabled
      cases target with
      | parent => exact left_setParent (Member.left_delivered setup.capacity pending)
      | child i =>
          have here : (family.children i).place.isAlive = true := alive
          unfold exec deliver
          dsimp only
          split
          · next starting =>
              split
              · exact left_setChild inside
                  (childLeft_lt (Member.left_ignored pending) (fun _ => here) _)
              · refine left_childEnds inside here ?_
                unfold Member.left
                rw [starting]
                simp only [MemberPlace.left]
                omega
          · exact left_setChild inside
              (childLeft_lt (Member.left_delivered setup.capacity pending) (fun _ => here) _)
  | started i =>
      obtain ⟨inside, starting⟩ := enabled
      refine left_setChild inside (childLeft_lt ?_ (fun _ => by rw [starting]; rfl) _)
      unfold Member.left
      rw [starting]
      simp only [MemberPlace.left]
      omega
  | poll target =>
      obtain ⟨inside, polling, raised⟩ := enabled
      cases target with
      | parent => exact left_setParent (Member.left_polled polling raised)
      | child i =>
          exact left_setChild inside
            (childLeft_lt (Member.left_polled polling raised) (fun _ => by rw [polling]; rfl) _)
  | receive target =>
      obtain ⟨inside, receiving⟩ := enabled
      cases target with
      | parent => exact left_setParent (Member.left_received receiving)
      | child i =>
          exact left_setChild inside
            (childLeft_lt (Member.left_received receiving) (fun _ => by rw [receiving]; rfl) _)
  | handle target unset => exact left_handle enabled.1 enabled.2 unset
  | wait child =>
      cases child with
      | none =>
          obtain ⟨signals, place⟩ := MemberPlace.exists_joining enabled.1
          unfold exec wait joined left Member.left
          dsimp only
          rw [place]
          simp only [MemberPlace.left]
          omega
      | some i =>
          obtain ⟨-, inside, ended⟩ := enabled
          have less : ({ family.children i with place := .reaped } : Member).left 1 <
              (family.children i).left 1 := by
            unfold Member.left
            rw [ended]
            simp only [MemberPlace.left]
            omega
          exact left_setChild inside (childLeft_lt less (fun alive => nomatch alive) _)
  | exit i =>
      obtain ⟨inside, leaving⟩ := enabled
      refine left_childEnds inside (by rw [leaving]; rfl) ?_
      unfold Member.left
      rw [leaving]
      simp only [MemberPlace.left]
      omega

/-! ## Where the processes come to rest -/

/-- Only new signals, crashes and other events can still make a process move. -/
def Settled (family : Family) : Prop := ∀ step, step.isInternal = true → ¬ family.Enabled step

/-- The parent has left its loop, and all children have been waited for. -/
def Stopped (family : Family) : Prop :=
  family.parent.place = .leaving ∧
    ∀ i < family.processNumber, (family.children i).place = .reaped

/-- Everybody is in `epoll_wait`. -/
def Idle (family : Family) : Prop :=
  family.parent.place = .polling ∧
    ∀ i < family.processNumber, (family.children i).place = .polling

/-- The parent is in `wait`, and some child is in `epoll_wait`. -/
def Blocked (family : Family) : Prop :=
  family.parent.place.isJoining = true ∧ (∀ i < family.processNumber,
      (family.children i).place = .polling ∨ (family.children i).place = .reaped) ∧
    ∃ i < family.processNumber, (family.children i).place = .polling

namespace Settled

theorem expects (settled : Settled family) (target : Relative) (inside : family.Exists target)
    {capacity : Nat} (attentive : (family.member target).Attentive capacity)
    (polling : (family.member target).place = .polling) (signal : PoolSignal) :
    ¬ (family.member target).Expects signal := by
  refine attentive.not_expects polling ?_ ?_ signal
  · refine List.eq_nil_iff_forall_not_mem.mpr fun signal pending => ?_
    exact settled (.deliver target signal) rfl ⟨inside, by rw [polling]; rfl, pending⟩
  · exact Bool.eq_false_iff.mpr fun raised =>
      settled (.poll target) rfl ⟨inside, polling, raised⟩

/-- A child is in `epoll_wait`, and was not asked to stop, or it has ended. -/
theorem child (settled : Settled family) (alert : Alert setup family)
    (inside : i < family.processNumber) :
    (family.children i).place = .polling ∧ family.asked = false ∨
      (family.children i).place = .ended ∨ (family.children i).place = .reaped := by
  have child := alert.children i inside
  cases place : (family.children i).place with
  | polling =>
      refine .inl ⟨rfl, Bool.eq_false_iff.mpr fun asked => ?_⟩
      rcases child.told asked (by rw [place]; rfl) with stop | expects
      · rw [child.attentive.goesOn (.inr (.inl place))] at stop
        exact nomatch stop
      · exact settled.expects (.child i) inside child.attentive place .sigterm expects
  | ended => exact .inr (.inl rfl)
  | reaped => exact .inr (.inr rfl)
  | starting => exact absurd ⟨inside, place⟩ (settled (.started i) rfl)
  | receiving => exact absurd ⟨inside, place⟩ (settled (.receive (.child i)) rfl)
  | handling signals =>
      refine absurd ⟨inside, ?_⟩ (settled (.handle (.child i) 0) rfl)
      show (family.children i).place.isHandling = true
      rw [place]
      rfl
  | leaving => exact absurd ⟨inside, place⟩ (settled (.exit i) rfl)
  | spinning => exact absurd place child.spinning
  | sending => exact absurd place child.sending
  | joining signals =>
      have elsewhere := child.joining
      rw [place] at elsewhere
      exact nomatch elsewhere

/-- Everybody has ended, nobody was asked to, or the parent waits for those who were not. -/
theorem cases (settled : Settled family) (alert : Alert setup family)
    (positive : 0 < family.processNumber) :
    family.Stopped ∨ family.asked = false ∧ (family.Idle ∨ family.Blocked) := by
  have parent := alert.parent
  cases place : family.parent.place with
  | leaving => exact .inl ⟨place, alert.orderly.stopped (alert.orderly.left place)⟩
  | polling =>
      have quiet := settled.expects .parent trivial parent.attentive place
      have goesOn := parent.attentive.goesOn (.inr (.inl place))
      -- nobody has ended, or the parent would expect SIGCHLD or have stopped
      have alive : ∀ j < family.processNumber,
          (family.children j).place = .polling ∧ family.asked = false := by
        intro j inside
        rcases settled.child alert inside with polling | ended | reaped
        · exact polling
        · rcases alert.noticed j inside ended with joining | expects
          · rw [place] at joining
            exact nomatch joining
          · exact absurd expects (quiet .sigchld)
        · rcases alert.joins (by rw [place]; rfl) with stop | unwaited
          · rw [goesOn] at stop
            exact nomatch stop
          · exact absurd reaped (unwaited j inside)
      exact .inr ⟨(alive 0 positive).2, .inl ⟨place, fun j inside => (alive j inside).1⟩⟩
  | joining signals =>
      have waits : ∀ j < family.processNumber,
          (family.children j).place = .polling ∧ family.asked = false ∨
            (family.children j).place = .reaped := by
        intro j inside
        rcases settled.child alert inside with polling | ended | reaped
        · exact .inl polling
        · exact absurd ⟨by rw [place]; rfl, inside, ended⟩ (settled (.wait (some j)) rfl)
        · exact .inr reaped
      obtain ⟨j, inside, polling, asked⟩ : ∃ j < family.processNumber,
          (family.children j).place = .polling ∧ family.asked = false := by
        refine Decidable.byContradiction fun nobody => ?_
        refine settled (.wait none) rfl ⟨by rw [place]; rfl, fun j inside => ?_⟩
        exact (waits j inside).resolve_left fun polling => nobody ⟨j, inside, polling⟩
      refine .inr ⟨asked, .inr ⟨by rw [place]; rfl, fun j inside => ?_, j, inside, polling⟩⟩
      exact (waits j inside).imp_left And.left
  | starting => exact absurd place parent.starting
  | spinning => exact absurd place parent.spinning
  | sending => exact absurd place parent.sending
  | receiving => exact absurd ⟨trivial, place⟩ (settled (.receive .parent) rfl)
  | handling signals =>
      refine absurd ⟨trivial, ?_⟩ (settled (.handle .parent 0) rfl)
      show family.parent.place.isHandling = true
      rw [place]
      rfl
  | ended =>
      have alive := parent.alive
      rw [place] at alive
      exact nomatch alive
  | reaped =>
      have alive := parent.alive
      rw [place] at alive
      exact nomatch alive

end Settled

end Family

open Family in
/-- If no signal is lost and no process blocks, the pool comes to rest from every state that it
reaches, within the steps that are left; and there everybody has ended, or the parent has not
handled a SIGTERM or SIGINT and either all processes are in `epoll_wait` or the parent is
blocked in `wait` by a child that is in `epoll_wait`. -/
theorem processPool_comesToRest (setup : FamilySetup)
    (small : setup.capacity ≤ SignalPipe.bufferSize) (schedule : List FamilyStep)
    (run : AllowedRun (fun family step => family.Enabled step ∧ family.Reliable setup step)
      (exec setup) (init setup) schedule) :
    (∀ further, AllowedRun (fun family step => family.Enabled step ∧ step.isInternal = true)
        (exec setup) (schedule.foldl (exec setup) (init setup)) further →
      further.length ≤ (schedule.foldl (exec setup) (init setup)).left) ∧
    ((schedule.foldl (exec setup) (init setup)).Settled →
      (schedule.foldl (exec setup) (init setup)).Stopped ∨
        (schedule.foldl (exec setup) (init setup)).asked = false ∧
          ((schedule.foldl (exec setup) (init setup)).Idle ∨
            (schedule.foldl (exec setup) (init setup)).Blocked)) := by
  have reached : Throughout (Alert setup) (exec setup) (init setup) schedule :=
    run.throughout (fun family step alert allowed => alert.exec small allowed.1 allowed.2)
      (alert_init setup)
  have alert := throughout_iff.mp reached schedule List.prefix_rfl
  constructor
  · intro further internal
    have uses : ∀ (family : Family) (step : FamilyStep), True →
        family.Enabled step ∧ step.isInternal = true →
          True ∧ (exec setup family step).left < family.left :=
      fun _ _ _ step => ⟨trivial, exec_left step.1 step.2⟩
    exact internal.length_le uses trivial
  · intro settled
    exact settled.cases alert (alert.orderly.number ▸ setup.positive)

/-- The parent passes SIGTERM on to two children; the second has not installed its handlers
yet and ends at once. -/
def sampleShutdown : List FamilyStep :=
  [.started 0, .signal .parent .sigterm, .deliver .parent .sigterm, .poll .parent,
    .receive .parent, .handle .parent 0, .handle .parent 0, .deliver (.child 0) .sigterm,
    .poll (.child 0), .receive (.child 0), .deliver (.child 1) .sigterm,
    .deliver .parent .sigchld, .handle (.child 0) 0, .handle (.child 0) 0, .exit 0,
    .deliver .parent .sigchld, .poll .parent, .receive .parent, .handle .parent 0,
    .wait (some 0), .wait (some 1), .wait none, .handle .parent 0, .wait none,
    .handle .parent 0]

open Family in
theorem processPool_comesToRest_sampleShutdown :
    (∀ further, AllowedRun (fun family step => family.Enabled step ∧ step.isInternal = true)
        (exec sampleFamilySetup)
        (sampleShutdown.foldl (exec sampleFamilySetup) (init sampleFamilySetup)) further →
      further.length ≤
        (sampleShutdown.foldl (exec sampleFamilySetup) (init sampleFamilySetup)).left) ∧
    ((sampleShutdown.foldl (exec sampleFamilySetup) (init sampleFamilySetup)).Settled →
      (sampleShutdown.foldl (exec sampleFamilySetup) (init sampleFamilySetup)).Stopped ∨
        (sampleShutdown.foldl (exec sampleFamilySetup) (init sampleFamilySetup)).asked = false ∧
          ((sampleShutdown.foldl (exec sampleFamilySetup) (init sampleFamilySetup)).Idle ∨
            (sampleShutdown.foldl (exec sampleFamilySetup) (init sampleFamilySetup)).Blocked)) :=
  processPool_comesToRest sampleFamilySetup (by decide) sampleShutdown (by decide)

/-! ## The parent in `wait` -/

namespace Family

variable {setup : FamilySetup} {family blocked : Family} {step : FamilyStep} {i : Nat}

theorem closed_grows (step : FamilyStep) : family.closed <+: (exec setup family step).closed := by
  cases step with
  | signal target signal => cases target <;> exact List.prefix_rfl
  | deliver target signal =>
      cases target with
      | parent => exact List.prefix_rfl
      | child i =>
          unfold exec Family.deliver
          dsimp only
          split
          · split
            · exact List.prefix_rfl
            · exact List.prefix_rfl
          · exact List.prefix_rfl
  | started i => exact List.prefix_rfl
  | poll target => cases target <;> exact List.prefix_rfl
  | receive target => cases target <;> exact List.prefix_rfl
  | handle target unset =>
      unfold exec Family.handle
      dsimp only
      split
      · cases target <;> exact List.prefix_rfl
      · next signal signals place =>
          cases target with
          | parent => cases signal <;> exact List.prefix_rfl
          | child i => exact List.prefix_rfl
      · exact List.prefix_rfl
  | wait child =>
      cases child with
      | some i => exact List.prefix_append _ _
      | none => exact List.prefix_rfl
  | block target => cases target <;> exact List.prefix_rfl
  | exit i => exact List.prefix_rfl
  | crash i => exact List.prefix_rfl

/-- A child that was waited for stays so. -/
theorem Orderly.reaped_exec (orderly : Orderly setup family) (enabled : family.Enabled step)
    (inside : i < family.processNumber) (reaped : (family.children i).place = .reaped) :
    ((Family.exec setup family step).children i).place = .reaped :=
  (((orderly.exec enabled).closed i).mp
    ((closed_grows step).subset ((orderly.closed i).mpr ⟨inside, reaped⟩))).2

/-- The parent is still in `wait`, and has asked nobody to stop since. -/
structure Held (blocked family : Family) : Prop where
  joining : family.parent.place.isJoining = true
  killed : family.killed = blocked.killed
  asked : family.asked = blocked.asked

namespace Held

/-- The parent's inbox changes, or a child. -/
theorem setMember (held : Held blocked family) (target : Relative) (member : Member)
    (joins : member.place.isJoining = (family.member target).place.isJoining) :
    Held blocked (family.setMember target member) where
  joining := by
    cases target with
    | parent => exact joins.trans held.joining
    | child i => exact held.joining
  killed := by
    cases target with
    | parent => exact held.killed
    | child i => exact held.killed
  asked := by
    cases target with
    | parent => exact held.asked
    | child i => exact held.asked

theorem setChild (held : Held blocked family) (member : Member) :
    Held blocked (family.setMember (.child i) member) :=
  ⟨held.joining, held.killed, held.asked⟩

theorem childEnds (held : Held blocked family) : Held blocked (family.childEnds i) := by
  refine ⟨?_, held.killed, held.asked⟩
  show (family.parent.sent .sigchld).place.isJoining = true
  rw [Member.sent_place]
  exact held.joining

/-- The loop of `wait` is the parent's only step, and it ends when there is no child. -/
theorem exec (held : Held blocked family) (enabled : family.Enabled step) :
    Held blocked (Family.exec setup family step) ∨
      ∀ i < family.processNumber, (family.children i).place = .reaped := by
  obtain ⟨signals, place⟩ := MemberPlace.exists_joining held.joining
  cases step with
  | signal target signal => exact .inl (held.setMember target _ (by rw [Member.sent_place]))
  | deliver target signal =>
      cases target with
      | parent => exact .inl (held.setMember .parent (family.parent.delivered _ signal) rfl)
      | child i =>
          unfold Family.exec Family.deliver
          dsimp only
          split
          · split
            · exact .inl (held.setChild _)
            · exact .inl held.childEnds
          · exact .inl (held.setChild _)
  | started i => exact .inl (held.setChild _)
  | poll target =>
      cases target with
      | parent => exact nomatch place.symm.trans enabled.2.1
      | child i => exact .inl (held.setChild _)
  | receive target =>
      cases target with
      | parent => exact nomatch place.symm.trans enabled.2
      | child i => exact .inl (held.setChild _)
  | handle target unset =>
      cases target with
      | parent =>
          obtain ⟨handled, handling⟩ := MemberPlace.exists_handling enabled.2
          exact nomatch place.symm.trans handling
      | child i =>
          unfold Family.exec Family.handle
          dsimp only
          split
          · exact .inl (held.setChild _)
          · exact .inl (held.setChild _)
          · exact .inl held
  | wait child =>
      cases child with
      | some i => exact .inl ⟨held.joining, held.killed, held.asked⟩
      | none => exact .inr enabled.2
  | block target =>
      cases target with
      | parent =>
          have serving : family.parent.place.isServing = true := enabled.2
          rw [place] at serving
          exact nomatch serving
      | child i => exact .inl (held.setChild _)
  | exit i => exact .inl held.childEnds
  | crash i => exact .inl held.childEnds

end Held

end Family

open Family in
/-- Once the parent has begun to wait, it goes on until all children have ended, whatever
signals it is sent: it kills nobody, and does not look at a SIGTERM. -/
theorem processPool_joiningUntilAllEnd (setup : FamilySetup) (before after : List FamilyStep)
    (enabled : AllowedRun Enabled (exec setup) (init setup) (before ++ after))
    (joining : (before.foldl (exec setup) (init setup)).parent.place.isJoining = true) :
    Throughout (fun family =>
        (∃ i < family.processNumber, (family.children i).place ≠ .reaped) →
          family.parent.place.isJoining = true ∧
          family.killed = (before.foldl (exec setup) (init setup)).killed ∧
          family.asked = (before.foldl (exec setup) (init setup)).asked)
      (exec setup) (before.foldl (exec setup) (init setup)) after := by
  obtain ⟨first, second⟩ := allowedRun_append_iff.mp enabled
  have orderly : Throughout (Orderly setup) (exec setup) (init setup) before :=
    first.throughout (fun _ _ orderly step => orderly.exec step) (orderly_init setup)
  have keeps : ∀ family step,
      Orderly setup family ∧ (Held (before.foldl (exec setup) (init setup)) family ∨
        ∀ i < family.processNumber, (family.children i).place = .reaped) →
      family.Enabled step →
        Orderly setup (exec setup family step) ∧
          (Held (before.foldl (exec setup) (init setup)) (exec setup family step) ∨
            ∀ i < (exec setup family step).processNumber,
              ((exec setup family step).children i).place = .reaped) := by
    intro family step invariant enabled
    obtain ⟨orderly, held⟩ := invariant
    have later := orderly.exec enabled
    refine ⟨later, ?_⟩
    have ended : (∀ i < family.processNumber, (family.children i).place = .reaped) →
        ∀ i < (exec setup family step).processNumber,
          ((exec setup family step).children i).place = .reaped := by
      intro gone i inside
      rw [later.number, ← orderly.number] at inside
      exact orderly.reaped_exec enabled inside (gone i inside)
    rcases held with held | gone
    · exact (held.exec enabled).imp_right ended
    · exact .inr (ended gone)
  refine (second.throughout keeps ⟨?_, .inl ⟨joining, rfl, rfl⟩⟩).mono fun family kept alive => ?_
  · exact throughout_iff.mp orderly before List.prefix_rfl
  · obtain ⟨i, inside, unreaped⟩ := alive
    rcases kept.2 with held | gone
    · exact ⟨held.joining, held.killed, held.asked⟩
    · exact absurd (gone i inside) unreaped

/-- A child has crashed, and the parent waits for the other one when it is sent SIGTERM. -/
def sampleCrash : List FamilyStep :=
  [.started 0, .started 1, .crash 0, .deliver .parent .sigchld, .poll .parent,
    .receive .parent, .handle .parent 0]

open Family in
theorem processPool_joiningUntilAllEnd_sampleCrash :
    Throughout (fun family =>
        (∃ i < family.processNumber, (family.children i).place ≠ .reaped) →
          family.parent.place.isJoining = true ∧
          family.killed =
            (sampleCrash.foldl (exec sampleFamilySetup) (init sampleFamilySetup)).killed ∧
          family.asked =
            (sampleCrash.foldl (exec sampleFamilySetup) (init sampleFamilySetup)).asked)
      (exec sampleFamilySetup)
      (sampleCrash.foldl (exec sampleFamilySetup) (init sampleFamilySetup))
      [.wait (some 0), .signal .parent .sigterm, .deliver .parent .sigterm] :=
  processPool_joiningUntilAllEnd sampleFamilySetup sampleCrash
    [.wait (some 0), .signal .parent .sigterm, .deliver .parent .sigterm] (by decide) (by decide)

end HPLinuxServer.Pool
