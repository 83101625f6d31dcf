import HPLinuxServer.Pool.ProcessPoolSignals
import HPLinuxServer.Refinement.Runs

/-!
# Process pool: children are waited for once

Whoever sends which signals to whom, the parent's table of pids is the table of the
children it has not waited for.
-/

set_option autoImplicit false

namespace HPLinuxServer.Pool

open Kernel Refinement

namespace Member

variable {member : Member} {signal : PoolSignal}

@[simp] theorem sent_place : (member.sent signal).place = member.place := by
  unfold sent
  split
  · rfl
  · rfl

@[simp] theorem sent_stop : (member.sent signal).stop = member.stop := by
  unfold sent
  split
  · rfl
  · rfl

@[simp] theorem delivered_place (capacity : Nat) :
    (member.delivered capacity signal).place = member.place := rfl

@[simp] theorem delivered_stop (capacity : Nat) :
    (member.delivered capacity signal).stop = member.stop := rfl

theorem handledAll_place_ne : member.handledAll.place ≠ .reaped := by
  unfold handledAll
  dsimp only
  split
  · exact nofun
  · exact nofun

theorem handledByChild_place_ne (unset : Int) (signals : List PoolSignal) :
    (member.handledByChild unset signals signal).place ≠ .reaped := by
  cases signal with
  | sigchld =>
      unfold handledByChild
      dsimp only
      split
      · exact nofun
      · exact nofun
  | sigterm => exact nofun
  | sigint => exact nofun

end Member

theorem MemberPlace.exists_handling {place : MemberPlace} (handling : place.isHandling = true) :
    ∃ signals, place = .handling signals := by
  cases place with
  | handling signals => exact ⟨signals, rfl⟩
  | starting => exact nomatch handling
  | polling => exact nomatch handling
  | receiving => exact nomatch handling
  | joining signals => exact nomatch handling
  | spinning => exact nomatch handling
  | sending => exact nomatch handling
  | leaving => exact nomatch handling
  | ended => exact nomatch handling
  | reaped => exact nomatch handling

theorem MemberPlace.exists_joining {place : MemberPlace} (joining : place.isJoining = true) :
    ∃ signals, place = .joining signals := by
  cases place with
  | joining signals => exact ⟨signals, rfl⟩
  | starting => exact nomatch joining
  | polling => exact nomatch joining
  | receiving => exact nomatch joining
  | handling signals => exact nomatch joining
  | spinning => exact nomatch joining
  | sending => exact nomatch joining
  | leaving => exact nomatch joining
  | ended => exact nomatch joining
  | reaped => exact nomatch joining

namespace Family

variable {setup : FamilySetup} {family next : Family} {i : Nat}

/-- The parent knows exactly the children that it has not waited for, under their pids.
It has closed the pipe of each other one once, it has killed none that it had waited for,
and it only stops when there is none left. -/
structure Orderly (setup : FamilySetup) (family : Family) : Prop where
  number : family.processNumber = setup.processNumber
  pid : ∀ i < family.processNumber,
    family.pid i = if (family.children i).place = .reaped then -1 else setup.pid i
  closed_once : family.closed.Nodup
  closed : ∀ i, i ∈ family.closed ↔
    i < family.processNumber ∧ (family.children i).place = .reaped
  killed : ∀ kill ∈ family.killed, kill.2 = false
  stopped : family.parent.stop = true →
    ∀ i < family.processNumber, (family.children i).place = .reaped
  left : family.parent.place = .leaving → family.parent.stop = true

theorem orderly_init (setup : FamilySetup) : Orderly setup (init setup) where
  number := rfl
  pid _ _ := rfl
  closed_once := List.nodup_nil
  closed _ := ⟨nofun, fun reaped => nomatch reaped.2⟩
  killed := nofun
  stopped := nofun
  left := nofun

theorem Orderly.pid_ne_iff (orderly : Orderly setup family) (inside : i < family.processNumber) :
    family.pid i ≠ -1 ↔ (family.children i).place ≠ .reaped := by
  rw [orderly.pid i inside]
  split
  · next reaped => exact ⟨fun differs => absurd rfl differs, fun differs => absurd reaped differs⟩
  · next waits => exact ⟨fun _ => waits, fun _ => setup.pid_ne i⟩

/-- A step that neither waits for a child nor kills one. -/
structure Steady (family next : Family) : Prop where
  number : next.processNumber = family.processNumber
  pid : next.pid = family.pid
  closed : next.closed = family.closed
  killed : next.killed = family.killed
  stop : next.parent.stop = family.parent.stop
  left : next.parent.place = .leaving →
    family.parent.place = .leaving ∨ family.parent.stop = true
  reaped : ∀ i, (next.children i).place = .reaped ↔ (family.children i).place = .reaped

theorem Steady.orderly (steady : Steady family next) (orderly : Orderly setup family) :
    Orderly setup next where
  number := steady.number.trans orderly.number
  pid := by
    intro i inside
    rw [steady.number] at inside
    rw [steady.pid, orderly.pid i inside]
    exact if_congr (steady.reaped i).symm rfl rfl
  closed_once := steady.closed ▸ orderly.closed_once
  closed := by
    intro i
    rw [steady.closed, orderly.closed, steady.number, steady.reaped]
  killed := steady.killed ▸ orderly.killed
  stopped := by
    intro stopped i inside
    rw [steady.number] at inside
    exact (steady.reaped i).mpr (orderly.stopped (steady.stop ▸ stopped) i inside)
  left := by
    intro leaving
    rw [steady.stop]
    exact (steady.left leaving).elim orderly.left id

theorem steady_child (member : Member)
    (same : member.place = .reaped ↔ (family.children i).place = .reaped) :
    Steady family (family.setMember (.child i) member) where
  number := rfl
  pid := rfl
  closed := rfl
  killed := rfl
  stop := rfl
  left := .inl
  reaped := by
    intro other
    unfold setMember
    dsimp only
    rcases Decidable.em (other = i) with rfl | apart
    · rw [Function.update_self]
      exact same
    · rw [Function.update_of_ne apart]

theorem steady_parent (member : Member) (stop : member.stop = family.parent.stop)
    (left : member.place = .leaving → family.parent.place = .leaving ∨ family.parent.stop = true) :
    Steady family (family.setMember .parent member) where
  number := rfl
  pid := rfl
  closed := rfl
  killed := rfl
  stop := stop
  left := left
  reaped _ := Iff.rfl

/-- A member of the family changes, and is waited for no more and no less. -/
theorem steady_member (target : Relative) (member : Member)
    (stop : member.stop = (family.member target).stop)
    (left : member.place = .leaving →
      (family.member target).place = .leaving ∨ (family.member target).stop = true)
    (same : member.place = .reaped ↔ (family.member target).place = .reaped) :
    Steady family (family.setMember target member) := by
  cases target with
  | parent => exact steady_parent member stop left
  | child i => exact steady_child member same

theorem steady_childEnds (alive : (family.children i).place ≠ .reaped) :
    Steady family (family.childEnds i) where
  number := rfl
  pid := rfl
  closed := rfl
  killed := rfl
  stop := Member.sent_stop
  left := by
    intro leaving
    exact .inl (Member.sent_place ▸ leaving)
  reaped := by
    intro other
    unfold childEnds
    dsimp only
    rcases Decidable.em (other = i) with rfl | apart
    · rw [Function.update_self]
      exact ⟨nofun, fun reaped => absurd reaped alive⟩
    · rw [Function.update_of_ne apart]

theorem place_ne_reaped_of_serving {member : Member} (serving : member.place.isServing = true) :
    member.place ≠ .reaped := by
  intro reaped
  rw [reaped] at serving
  exact nomatch serving

theorem place_ne_reaped {member : Member} (alive : member.place.isAlive = true) :
    member.place ≠ .reaped := by
  intro reaped
  rw [reaped] at alive
  exact nomatch alive

theorem killChildren_place (i : Nat) :
    (family.killChildren.children i).place = (family.children i).place := by
  unfold killChildren
  dsimp only
  split
  · exact Member.sent_place
  · rfl

theorem Orderly.killChildren (orderly : Orderly setup family) :
    Orderly setup family.killChildren where
  number := orderly.number
  pid := by
    intro i inside
    rw [killChildren_place]
    exact orderly.pid i inside
  closed_once := orderly.closed_once
  closed := by
    intro i
    rw [killChildren_place]
    exact orderly.closed i
  killed := by
    intro kill member
    rcases List.mem_append.mp member with before | new
    · exact orderly.killed kill before
    · obtain ⟨i, chosen, rfl⟩ := List.mem_map.mp new
      obtain ⟨inside, known⟩ := List.mem_filter.mp chosen
      exact decide_eq_false
        ((orderly.pid_ne_iff (List.mem_range.mp inside)).mp (of_decide_eq_true known))
  stopped := by
    intro stopped i inside
    rw [killChildren_place]
    exact orderly.stopped stopped i inside
  left := orderly.left

theorem Orderly.setParent (orderly : Orderly setup family) {member : Member}
    (stop : member.stop = family.parent.stop) (stays : member.place ≠ .leaving) :
    Orderly setup { family with parent := member } :=
  (steady_parent member stop fun leaving => absurd leaving stays).orderly orderly

theorem Orderly.handle (orderly : Orderly setup family) {target : Relative}
    (handling : (family.member target).place.isHandling = true) (unset : Int) :
    Orderly setup (family.handle target unset) := by
  obtain ⟨signals, place⟩ := MemberPlace.exists_handling handling
  unfold Family.handle
  rw [place]
  cases signals with
  | nil =>
      refine (steady_member target (family.member target).handledAll rfl ?_ ?_).orderly orderly
      · intro leaving
        unfold Member.handledAll at leaving
        dsimp only at leaving
        split at leaving
        · next stop => exact .inr stop
        · exact nomatch leaving
      · rw [place]
        exact ⟨fun reaped => absurd reaped Member.handledAll_place_ne, nofun⟩
  | cons signal signals =>
      cases target with
      | parent =>
          cases signal with
          | sigchld => exact orderly.setParent rfl nofun
          | sigterm => exact orderly.killChildren.setParent rfl nofun
          | sigint => exact orderly.killChildren.setParent rfl nofun
      | child i =>
          refine (steady_child _ ?_).orderly orderly
          have unreaped : (family.children i).place ≠ .reaped := by
            rw [show (family.children i).place = _ from place]
            exact nofun
          exact ⟨fun reaped => absurd reaped (Member.handledByChild_place_ne unset signals),
            fun reaped => absurd reaped unreaped⟩

/-- `wait` has returned a child: it is taken from the table, and its pipe is closed. -/
theorem Orderly.wait_some (orderly : Orderly setup family) (inside : i < family.processNumber)
    (ended : (family.children i).place = .ended) :
    Orderly setup (family.wait setup (some i)) := by
  have known : ∀ j < family.processNumber, family.pid j = setup.pid i ↔ j = i := by
    intro j within
    rw [orderly.pid j within]
    constructor
    · intro same
      split at same
      · exact absurd same.symm (setup.pid_ne i)
      · exact setup.pid_injective j i same
    · rintro rfl
      rw [if_neg (by rw [ended]; exact nofun)]
  have reaped : ∀ j, (Function.update family.children i
      { family.children i with place := .reaped } j).place = .reaped ↔
        j = i ∨ (family.children j).place = .reaped := by
    intro j
    rcases Decidable.em (j = i) with rfl | apart
    · simp
    · simp [apart]
  have chosen : ((List.range family.processNumber).filter fun j =>
      decide (family.pid j = setup.pid i)) = [i] := by
    have same : ∀ j ∈ List.range family.processNumber,
        decide (family.pid j = setup.pid i) = (j == i) := by
      intro j member
      rw [Bool.eq_iff_iff, decide_eq_true_iff, beq_iff_eq]
      exact known j (List.mem_range.mp member)
    rw [List.filter_congr same, List.filter_beq,
      List.nodup_range.count, if_pos (List.mem_range.mpr inside)]
    rfl
  constructor
  · exact orderly.number
  · intro j within
    unfold Family.wait reclaim setMember
    dsimp only
    rw [if_congr (reaped j) rfl rfl, if_congr (and_congr_right (known j)) rfl rfl]
    rcases Decidable.em (j = i) with rfl | apart
    · rw [if_pos ⟨within, rfl⟩, if_pos (.inl rfl)]
    · rw [if_neg fun both => apart both.2, orderly.pid j within]
      exact if_congr (or_iff_right apart).symm rfl rfl
  · unfold Family.wait reclaim setMember
    dsimp only
    rw [chosen]
    refine List.nodup_append.mpr ⟨orderly.closed_once, List.pairwise_singleton _ i, ?_⟩
    intro earlier before later new same
    obtain rfl := List.mem_singleton.mp new
    obtain ⟨-, gone⟩ := (orderly.closed earlier).mp before
    rw [same, ended] at gone
    exact nomatch gone
  · intro j
    unfold Family.wait reclaim setMember
    dsimp only
    rw [chosen, List.mem_append, List.mem_singleton, orderly.closed, reaped]
    constructor
    · rintro (⟨within, gone⟩ | rfl)
      · exact ⟨within, .inr gone⟩
      · exact ⟨inside, .inl rfl⟩
    · rintro ⟨within, rfl | gone⟩
      · exact .inr rfl
      · exact .inl ⟨within, gone⟩
  · exact orderly.killed
  · intro stopped j within
    exact (reaped j).mpr (.inr (orderly.stopped stopped j within))
  · exact orderly.left

theorem Orderly.wait_none (orderly : Orderly setup family)
    (joining : family.parent.place.isJoining = true)
    (gone : ∀ i < family.processNumber, (family.children i).place = .reaped) :
    Orderly setup (family.wait setup none) where
  number := orderly.number
  pid := orderly.pid
  closed_once := orderly.closed_once
  closed := orderly.closed
  killed := orderly.killed
  stopped _ := gone
  left := by
    obtain ⟨signals, place⟩ := MemberPlace.exists_joining joining
    intro leaving
    unfold Family.wait joined at leaving
    dsimp only at leaving
    rw [place] at leaving
    exact nomatch leaving

theorem Orderly.exec (orderly : Orderly setup family) {step : FamilyStep}
    (enabled : family.Enabled step) : Orderly setup (family.exec setup step) := by
  cases step with
  | signal target signal =>
      exact (steady_member target _ Member.sent_stop (fun leaving => .inl (Member.sent_place ▸ leaving))
        (by rw [Member.sent_place])).orderly orderly
  | deliver target signal =>
      obtain ⟨-, alive, -⟩ := enabled
      cases target with
      | parent =>
          exact (steady_parent (family.parent.delivered setup.capacity signal) rfl .inl).orderly
            orderly
      | child i =>
          unfold Family.exec Family.deliver
          dsimp only
          split
          · split
            · exact (steady_child ((family.children i).ignored signal) Iff.rfl).orderly orderly
            · exact (steady_childEnds (place_ne_reaped alive)).orderly orderly
          · exact (steady_child ((family.children i).delivered setup.capacity signal)
              Iff.rfl).orderly orderly
  | started i =>
      obtain ⟨-, starting⟩ := enabled
      refine (steady_child _ ?_).orderly orderly
      rw [starting]
      exact ⟨nofun, nofun⟩
  | poll target =>
      obtain ⟨-, polling, -⟩ := enabled
      refine (steady_member target (family.member target).polled rfl nofun ?_).orderly orderly
      rw [polling]
      exact ⟨nofun, nofun⟩
  | receive target =>
      obtain ⟨-, receiving⟩ := enabled
      refine (steady_member target (family.member target).received rfl nofun ?_).orderly orderly
      rw [receiving]
      exact ⟨nofun, nofun⟩
  | handle target unset => exact orderly.handle enabled.2 unset
  | wait child =>
      cases child with
      | some i => exact orderly.wait_some enabled.2.1 enabled.2.2
      | none => exact orderly.wait_none enabled.1 enabled.2
  | block target =>
      have unreaped := place_ne_reaped_of_serving enabled.2
      exact (steady_member target { family.member target with place := .sending } rfl nofun
        ⟨nofun, fun reaped => absurd reaped unreaped⟩).orderly orderly
  | exit i =>
      refine (steady_childEnds ?_).orderly orderly
      rw [enabled.2]
      exact nofun
  | crash i => exact (steady_childEnds (place_ne_reaped enabled.2)).orderly orderly

end Family

open Family in
/-- In every state of every run, with whatever signals: each child that the parent has not
waited for is in its table under its pid and each other one is not; the pipe of a child
is closed when the child has been waited for, and only once; the parent kills no process
that it has waited for; and it leaves its loop only when all children are waited for. -/
theorem processPool_waitsOnce (setup : FamilySetup) (schedule : List FamilyStep)
    (enabled : AllowedRun Enabled (exec setup) (init setup) schedule) :
    Throughout (Orderly setup) (exec setup) (init setup) schedule :=
  enabled.throughout (fun _ _ orderly step => orderly.exec step) (orderly_init setup)

/-- Two children. -/
def sampleFamilySetup : FamilySetup where
  processNumber := 2
  pid i := i + 100
  capacity := 8
  positive := by decide
  pid_ne := by omega
  pid_injective := by omega

/-- The first child crashes while the parent handles a SIGTERM, which reaches the second
child before it has installed its handlers. -/
def sampleFamilySteps : List FamilyStep :=
  [.started 0, .signal .parent .sigterm, .deliver .parent .sigterm, .poll .parent,
    .receive .parent, .handle .parent 0, .crash 0, .deliver (.child 1) .sigterm,
    .handle .parent 0, .deliver .parent .sigchld, .poll .parent, .receive .parent,
    .handle .parent 0, .wait (some 1), .wait (some 0), .wait none, .handle .parent 0]

theorem processPool_waitsOnce_sampleFamilySteps :
    Throughout (Family.Orderly sampleFamilySetup) (Family.exec sampleFamilySetup)
      (Family.init sampleFamilySetup) sampleFamilySteps :=
  processPool_waitsOnce sampleFamilySetup sampleFamilySteps (by decide)

end HPLinuxServer.Pool
