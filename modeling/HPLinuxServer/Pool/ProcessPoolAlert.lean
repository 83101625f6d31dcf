import HPLinuxServer.Pool.ProcessPoolSignalsProperties

/-!
# Process pool: no signal is forgotten

As long as every handler can write into its pipe and no process blocks, a child that was
asked to stop is about to, and the parent is about to wait for every child that has ended.
-/

set_option autoImplicit false

namespace HPLinuxServer.Pool

open Kernel Refinement

namespace Member

variable {member : Member} {signal other : PoolSignal} {capacity : Nat}

/-- The signal is on its way to the `switch` of the process. -/
def Expects (member : Member) (signal : PoolSignal) : Prop :=
  member.inbox.Holds signal ∨ ∃ signals, member.place = .handling signals ∧ signal ∈ signals

/-- What holds of the pipe and of `m_stop` at every place of the loop. -/
structure Attentive (capacity : Nat) (member : Member) : Prop where
  sound : member.inbox.Sound capacity
  reported : member.place ≠ .receiving → member.inbox.pipe.reported = false
  goesOn : member.place = .starting ∨ member.place = .polling ∨ member.place = .receiving →
    member.stop = false

theorem attentive_init (capacity : Nat) (place : MemberPlace) :
    (init place).Attentive capacity where
  sound := SignalPipe.sound_empty
  reported _ := rfl
  goesOn _ := rfl

namespace Attentive

theorem sent (attentive : member.Attentive capacity) (signal : PoolSignal) :
    (member.sent signal).Attentive capacity := by
  unfold Member.sent
  split
  · refine ⟨attentive.sound.raise signal, fun elsewhere => ?_, attentive.goesOn⟩
    dsimp only
    rw [SignalPipe.raise_pipe]
    exact attentive.reported elsewhere
  · exact attentive

theorem delivered (attentive : member.Attentive capacity) (signal : PoolSignal) :
    (member.delivered capacity signal).Attentive capacity where
  sound := attentive.sound.deliver signal
  reported := by
    intro elsewhere
    unfold Member.delivered SignalPipe.deliver
    dsimp only
    split
    · exact attentive.reported elsewhere
    · exact attentive.reported elsewhere
  goesOn := attentive.goesOn

theorem polled (attentive : member.Attentive capacity) (polling : member.place = .polling) :
    member.polled.Attentive capacity where
  sound := attentive.sound.report
  reported elsewhere := absurd rfl elsewhere
  goesOn _ := attentive.goesOn (.inr (.inl polling))

theorem received (attentive : member.Attentive capacity)
    (small : capacity ≤ SignalPipe.bufferSize) : member.received.Attentive capacity where
  sound := attentive.sound.receive small
  reported _ := rfl
  goesOn place := place.elim nofun fun place => place.elim nofun nofun

theorem moved (attentive : member.Attentive capacity) (elsewhere : member.place ≠ .receiving)
    {next : Member} (same : next.inbox = member.inbox)
    (goesOn : next.place = .starting ∨ next.place = .polling ∨ next.place = .receiving →
      next.stop = false) :
    next.Attentive capacity where
  sound := same ▸ attentive.sound
  reported _ := by
    rw [same]
    exact attentive.reported elsewhere
  goesOn := goesOn

theorem handledAll (attentive : member.Attentive capacity) (elsewhere : member.place ≠ .receiving) :
    member.handledAll.Attentive capacity := by
  refine attentive.moved elsewhere rfl fun place => ?_
  unfold Member.handledAll at place ⊢
  dsimp only at place ⊢
  split at place
  · exact place.elim nofun fun place => place.elim nofun nofun
  · next goesOn => exact Bool.eq_false_iff.mpr goesOn

/-- In `epoll_wait` with nothing pending and no event raised there is nothing to expect. -/
theorem not_expects (attentive : member.Attentive capacity) (polling : member.place = .polling)
    (nothing : member.inbox.pending = []) (quiet : member.inbox.pipe.raised = false)
    (signal : PoolSignal) : ¬ member.Expects signal := by
  rintro ((pending | waiting) | ⟨signals, handling, -⟩)
  · rw [nothing] at pending
    exact nomatch pending
  · rcases attentive.sound.covered (List.ne_nil_of_mem waiting) with raised | reported
    · rw [quiet] at raised
      exact nomatch raised
    · rw [attentive.reported (by rw [polling]; exact nofun)] at reported
      exact nomatch reported
  · rw [polling] at handling
    exact nomatch handling

end Attentive

namespace Expects

theorem sent (expects : member.Expects other) (signal : PoolSignal) :
    (member.sent signal).Expects other := by
  unfold Member.sent
  split
  · exact expects.imp_left fun held => held.raise signal
  · exact expects

theorem delivered (expects : member.Expects other)
    (room : member.inbox.pipe.waiting.length < capacity) (signal : PoolSignal) :
    (member.delivered capacity signal).Expects other :=
  expects.imp_left fun held => held.deliver room signal

theorem received (expects : member.Expects other) (receiving : member.place = .receiving) :
    member.received.Expects other := by
  rcases expects with held | ⟨signals, handling, -⟩
  · exact held.receive.imp_right fun received => ⟨_, rfl, received⟩
  · rw [receiving] at handling
    exact nomatch handling

/-- Nothing but the next signal is dropped. -/
theorem moved (expects : member.Expects other) {next : Member} (same : next.inbox = member.inbox)
    (keeps : ∀ signals, member.place = .handling signals → other ∈ signals →
      ∃ rest, next.place = .handling rest ∧ other ∈ rest) : next.Expects other := by
  rcases expects with held | ⟨signals, handling, among⟩
  · exact .inl (same ▸ held)
  · exact .inr (keeps signals handling among)

end Expects

theorem expects_sent (alive : member.place.isAlive = true) :
    (member.sent signal).Expects signal := by
  unfold sent
  rw [if_pos alive]
  exact .inl SignalPipe.holds_raise

/-- What is expected after a signal was sent has been expected or is that signal. -/
theorem Expects.of_sent (expects : (member.sent signal).Expects other) :
    member.Expects other ∨ other = signal := by
  unfold Member.sent at expects
  split at expects
  · rcases expects with held | handling
    · exact (SignalPipe.holds_raise_iff.mp held).imp_left .inl
    · exact .inl (.inr handling)
  · exact .inl expects

/-- What holds of a child. -/
structure AsChild (capacity : Nat) (asked : Bool) (member : Member) : Prop where
  attentive : member.Attentive capacity
  calm : ¬ member.Expects .sigchld
  joining : member.place.isJoining = false
  spinning : member.place ≠ .spinning
  sending : member.place ≠ .sending
  told : asked = true → member.place.isAlive = true →
    member.stop = true ∨ member.Expects .sigterm

structure AsParent (capacity : Nat) (member : Member) : Prop where
  attentive : member.Attentive capacity
  alive : member.place.isAlive = true
  starting : member.place ≠ .starting
  spinning : member.place ≠ .spinning
  sending : member.place ≠ .sending

namespace AsChild

variable {asked : Bool} {rest : List PoolSignal}

theorem sent (child : member.AsChild capacity asked) (other : signal ≠ .sigchld) :
    (member.sent signal).AsChild capacity asked where
  attentive := child.attentive.sent signal
  calm expects := expects.of_sent.elim child.calm other.symm
  joining := by rw [sent_place]; exact child.joining
  spinning := by rw [sent_place]; exact child.spinning
  sending := by rw [sent_place]; exact child.sending
  told := by
    rw [sent_place, sent_stop]
    exact fun asks alive => (child.told asks alive).imp_right fun expects => expects.sent signal

/-- The parent asks the child to stop. -/
theorem killed (child : member.AsChild capacity asked) :
    (member.sent .sigterm).AsChild capacity true where
  attentive := child.attentive.sent .sigterm
  calm expects := expects.of_sent.elim child.calm nofun
  joining := by rw [sent_place]; exact child.joining
  spinning := by rw [sent_place]; exact child.spinning
  sending := by rw [sent_place]; exact child.sending
  told := by
    rw [sent_place]
    exact fun _ alive => .inr (expects_sent alive)

theorem delivered (child : member.AsChild capacity asked)
    (pending : signal ∈ member.inbox.pending)
    (room : member.inbox.pipe.waiting.length < capacity) :
    (member.delivered capacity signal).AsChild capacity asked where
  attentive := child.attentive.delivered signal
  calm expects := child.calm (expects.imp_left fun held => held.of_deliver pending)
  joining := child.joining
  spinning := child.spinning
  sending := child.sending
  told asks alive := (child.told asks alive).imp_right fun expects =>
    expects.delivered room signal

/-- The child moves on without a look at its pipe. -/
theorem moved (child : member.AsChild capacity asked) (elsewhere : member.place ≠ .receiving)
    (alive : member.place.isAlive = true) {next : Member} (same : next.inbox = member.inbox)
    (goesOn : next.place = .starting ∨ next.place = .polling ∨ next.place = .receiving →
      next.stop = false)
    (joining : next.place.isJoining = false) (spinning : next.place ≠ .spinning)
    (sending : next.place ≠ .sending)
    (fewer : ∀ signals, next.place = .handling signals →
      ∃ all, member.place = .handling all ∧ signals ⊆ all)
    (told : member.stop = true ∨ member.Expects .sigterm →
      next.stop = true ∨ next.Expects .sigterm) : next.AsChild capacity asked where
  attentive := child.attentive.moved elsewhere same goesOn
  calm := by
    rintro (held | ⟨signals, handling, among⟩)
    · exact child.calm (.inl (same ▸ held))
    · obtain ⟨all, place, within⟩ := fewer signals handling
      exact child.calm (.inr ⟨all, place, within among⟩)
  joining := joining
  spinning := spinning
  sending := sending
  told asks _ := told (child.told asks alive)

theorem started (child : member.AsChild capacity asked) (starting : member.place = .starting) :
    ({ member with place := .polling } : Member).AsChild capacity asked := by
  refine child.moved (by rw [starting]; exact nofun) (by rw [starting]; rfl) rfl
    (fun _ => child.attentive.goesOn (.inl starting)) rfl nofun nofun nofun fun told => ?_
  refine told.imp_right fun expects => expects.moved rfl fun signals handling => ?_
  rw [starting] at handling
  exact nomatch handling

theorem polled (child : member.AsChild capacity asked) (polling : member.place = .polling) :
    member.polled.AsChild capacity asked where
  attentive := child.attentive.polled polling
  calm expects := child.calm (expects.elim .inl fun handling => by
    obtain ⟨signals, place, -⟩ := handling
    exact nomatch place)
  joining := rfl
  spinning := nofun
  sending := nofun
  told asks _ := by
    refine (child.told asks (by rw [polling]; rfl)).imp_right fun expects => ?_
    rcases expects with held | ⟨signals, handling, -⟩
    · exact .inl held
    · rw [polling] at handling
      exact nomatch handling

theorem received (child : member.AsChild capacity asked) (receiving : member.place = .receiving)
    (small : capacity ≤ SignalPipe.bufferSize) : member.received.AsChild capacity asked where
  attentive := child.attentive.received small
  calm expects := by
    rcases expects with held | ⟨signals, handling, among⟩
    · exact child.calm (.inl held.of_receive)
    · cases handling
      exact child.calm (.inl (.inr (List.mem_of_mem_take among)))
  joining := rfl
  spinning := nofun
  sending := nofun
  told asks _ := (child.told asks (by rw [receiving]; rfl)).imp_right fun expects =>
    expects.received receiving

theorem handledAll (child : member.AsChild capacity asked)
    (handling : member.place = .handling []) : member.handledAll.AsChild capacity asked := by
  have place : member.handledAll.place = .leaving ∨ member.handledAll.place = .polling := by
    unfold Member.handledAll
    dsimp only
    split
    · exact .inl rfl
    · exact .inr rfl
  have elsewhere : member.place ≠ .receiving := by rw [handling]; exact nofun
  refine child.moved elsewhere (by rw [handling]; rfl) rfl
    (child.attentive.handledAll elsewhere).goesOn ?_ ?_ ?_ ?_ fun told => ?_
  · rcases place with leaving | polling
    · rw [leaving]; rfl
    · rw [polling]; rfl
  · rcases place with leaving | polling
    · rw [leaving]; exact nofun
    · rw [polling]; exact nofun
  · rcases place with leaving | polling
    · rw [leaving]; exact nofun
    · rw [polling]; exact nofun
  · intro signals other
    rcases place with leaving | polling
    · rw [leaving] at other; exact nomatch other
    · rw [polling] at other; exact nomatch other
  · refine told.imp_right fun expects => expects.moved rfl fun signals before among => ?_
    rw [handling] at before
    cases before
    exact nomatch among

theorem handled (child : member.AsChild capacity asked)
    (handling : member.place = .handling (signal :: rest)) (unset : Int) :
    (member.handledByChild unset rest signal).AsChild capacity asked := by
  have elsewhere : member.place ≠ .receiving := by rw [handling]; exact nofun
  have alive : member.place.isAlive = true := by rw [handling]; rfl
  have fewer : ∀ signals, MemberPlace.handling rest = .handling signals →
      ∃ all, member.place = .handling all ∧ signals ⊆ all := by
    intro signals same
    cases same
    exact ⟨_, handling, List.subset_cons_self _ _⟩
  cases signal with
  | sigchld => exact absurd (.inr ⟨_, handling, List.mem_cons_self⟩) child.calm
  | sigterm =>
      exact child.moved elsewhere alive rfl (fun place => place.elim nofun fun place =>
        place.elim nofun nofun) rfl nofun nofun fewer fun _ => .inl rfl
  | sigint =>
      exact child.moved elsewhere alive rfl (fun place => place.elim nofun fun place =>
        place.elim nofun nofun) rfl nofun nofun fewer fun _ => .inl rfl

/-- A child that has ended. -/
theorem dead {member : Member} (same : member.inbox = .empty)
    (place : member.place = .ended ∨ member.place = .reaped) : member.AsChild capacity asked := by
  have gone : member.place.isAlive = false ∧ member.place.isJoining = false ∧
      member.place.isHandling = false := by
    rcases place with ended | reaped
    · rw [ended]; exact ⟨rfl, rfl, rfl⟩
    · rw [reaped]; exact ⟨rfl, rfl, rfl⟩
  constructor
  · refine ⟨same ▸ SignalPipe.sound_empty, fun _ => by rw [same]; rfl, ?_⟩
    rintro (before | before | before)
    · rw [before] at gone; exact nomatch gone.1
    · rw [before] at gone; exact nomatch gone.1
    · rw [before] at gone; exact nomatch gone.1
  · rintro (held | ⟨signals, handling, -⟩)
    · rw [same] at held
      exact held.elim nofun nofun
    · rw [handling] at gone
      exact nomatch gone.1
  · exact gone.2.1
  · intro spinning
    rw [spinning] at gone
    exact nomatch gone.1
  · intro sending
    rw [sending] at gone
    exact nomatch gone.1
  · intro _ alive
    rw [gone.1] at alive
    exact nomatch alive

end AsChild

namespace AsParent

theorem sent (parent : member.AsParent capacity) (signal : PoolSignal) :
    (member.sent signal).AsParent capacity where
  attentive := parent.attentive.sent signal
  alive := by rw [sent_place]; exact parent.alive
  starting := by rw [sent_place]; exact parent.starting
  spinning := by rw [sent_place]; exact parent.spinning
  sending := by rw [sent_place]; exact parent.sending

theorem delivered (parent : member.AsParent capacity) (signal : PoolSignal) :
    (member.delivered capacity signal).AsParent capacity where
  attentive := parent.attentive.delivered signal
  alive := parent.alive
  starting := parent.starting
  spinning := parent.spinning
  sending := parent.sending

end AsParent

end Member

namespace Family

variable {setup : FamilySetup} {family : Family} {i : Nat} {asked : Bool}

/-- No handler's `send` fails, no other one blocks, and nobody sends SIGCHLD to a child. -/
def Reliable (setup : FamilySetup) (family : Family) : FamilyStep → Prop
  | .deliver target _ =>
      (family.member target).inbox.pipe.waiting.length < setup.capacity
  | .signal .parent _ => True
  | .signal (.child _) signal => signal ≠ .sigchld
  | .started _ => True
  | .poll _ => True
  | .receive _ => True
  | .handle _ _ => True
  | .wait _ => True
  | .block _ => False
  | .exit _ => True
  | .crash _ => True

instance (setup : FamilySetup) (family : Family) : ∀ step, Decidable (family.Reliable setup step)
  | .deliver _ _ => inferInstanceAs (Decidable (_ < _))
  | .signal .parent _ => inferInstanceAs (Decidable True)
  | .signal (.child _) signal => inferInstanceAs (Decidable (signal ≠ .sigchld))
  | .started _ => inferInstanceAs (Decidable True)
  | .poll _ => inferInstanceAs (Decidable True)
  | .receive _ => inferInstanceAs (Decidable True)
  | .handle _ _ => inferInstanceAs (Decidable True)
  | .wait _ => inferInstanceAs (Decidable True)
  | .block _ => inferInstanceAs (Decidable False)
  | .exit _ => inferInstanceAs (Decidable True)
  | .crash _ => inferInstanceAs (Decidable True)

/-- The parent will notice every child that has ended, and once it has waited for one it
waits for all. -/
structure Alert (setup : FamilySetup) (family : Family) : Prop where
  orderly : Orderly setup family
  parent : family.parent.AsParent setup.capacity
  children : ∀ i < family.processNumber,
    (family.children i).AsChild setup.capacity family.asked
  noticed : ∀ i < family.processNumber, (family.children i).place = .ended →
    family.parent.place.isJoining = true ∨ family.parent.Expects .sigchld
  joins : family.parent.place.isJoining = false →
    family.parent.stop = true ∨ ∀ i < family.processNumber, (family.children i).place ≠ .reaped

theorem alert_init (setup : FamilySetup) : Alert setup (init setup) where
  orderly := orderly_init setup
  parent := ⟨Member.attentive_init _ _, rfl, nofun, nofun, nofun⟩
  children _ _ :=
    ⟨Member.attentive_init _ _, fun expects => expects.elim (fun held => held.elim nofun nofun)
      (fun handling => nomatch handling.choose_spec.1), rfl, nofun, nofun, nofun⟩
  noticed := nofun
  joins _ := .inr fun _ _ => nofun

namespace Alert

/-- A child moves on. -/
theorem setChild (alert : Alert setup family) (member : Member)
    (orderly : Orderly setup (family.setMember (.child i) member))
    (child : member.AsChild setup.capacity family.asked)
    (ended : member.place = .ended → family.parent.place.isJoining = true ∨
      family.parent.Expects .sigchld)
    (reaped : member.place = .reaped → (family.children i).place = .reaped) :
    Alert setup (family.setMember (.child i) member) where
  orderly := orderly
  parent := alert.parent
  children := by
    intro other inside
    unfold setMember
    dsimp only
    rcases Decidable.em (other = i) with rfl | apart
    · rw [Function.update_self]
      exact child
    · rw [Function.update_of_ne apart]
      exact alert.children other inside
  noticed := by
    intro other inside
    unfold setMember
    dsimp only
    rcases Decidable.em (other = i) with rfl | apart
    · rw [Function.update_self]
      exact ended
    · rw [Function.update_of_ne apart]
      exact alert.noticed other inside
  joins := by
    intro elsewhere
    refine (alert.joins elsewhere).imp_right fun unwaited other inside => ?_
    unfold setMember
    dsimp only
    rcases Decidable.em (other = i) with rfl | apart
    · rw [Function.update_self]
      exact fun waited => unwaited other inside (reaped waited)
    · rw [Function.update_of_ne apart]
      exact unwaited other inside

/-- The parent moves on, and does not go to or from its loop of `wait`. -/
theorem setParent (alert : Alert setup family) (member : Member)
    (orderly : Orderly setup (family.setMember .parent member))
    (parent : member.AsParent setup.capacity)
    (joining : member.place.isJoining = family.parent.place.isJoining)
    (stop : member.stop = family.parent.stop)
    (expects : family.parent.Expects .sigchld → member.Expects .sigchld) :
    Alert setup (family.setMember .parent member) where
  orderly := orderly
  parent := parent
  children := alert.children
  noticed := by
    intro other inside ended
    show member.place.isJoining = true ∨ member.Expects .sigchld
    rw [joining]
    exact (alert.noticed other inside ended).imp_right expects
  joins := by
    show member.place.isJoining = false → member.stop = true ∨ _
    rw [joining, stop]
    exact alert.joins

theorem childEnds (alert : Alert setup family) (inside : i < family.processNumber)
    (alive : (family.children i).place.isAlive = true) :
    Alert setup (family.childEnds i) where
  orderly := (steady_childEnds (place_ne_reaped alive)).orderly alert.orderly
  parent := alert.parent.sent .sigchld
  children := by
    intro other within
    unfold Family.childEnds
    dsimp only
    rcases Decidable.em (other = i) with rfl | apart
    · rw [Function.update_self]
      exact .dead rfl (.inl rfl)
    · rw [Function.update_of_ne apart]
      exact alert.children other within
  noticed _ _ _ := .inr (Member.expects_sent alert.parent.alive)
  joins := by
    unfold Family.childEnds
    dsimp only
    rw [Member.sent_place, Member.sent_stop]
    intro elsewhere
    refine (alert.joins elsewhere).imp_right fun unwaited other within => ?_
    rcases Decidable.em (other = i) with rfl | apart
    · rw [Function.update_self]
      exact nofun
    · rw [Function.update_of_ne apart]
      exact unwaited other within

/-- The parent kills its children, and handles the signal behind it next. -/
theorem killChildren (alert : Alert setup family) {signal : PoolSignal}
    {rest : List PoolSignal} (handling : family.parent.place = .handling (signal :: rest))
    (other : signal ≠ .sigchld) :
    Alert setup
      { family.killChildren with parent := { family.parent with place := .handling rest } } where
  orderly := alert.orderly.killChildren.setParent rfl nofun
  parent := by
    have elsewhere : family.parent.place ≠ .receiving := by rw [handling]; exact nofun
    exact ⟨alert.parent.attentive.moved elsewhere rfl fun place => place.elim nofun fun place =>
      place.elim nofun nofun, rfl, nofun, nofun, nofun⟩
  children := by
    intro i inside
    have child := alert.children i inside
    unfold Family.killChildren
    dsimp only
    split
    · exact child.killed
    · next apart =>
        -- the parent has no pid for a child only if it has waited for it
        have reaped : (family.children i).place = .reaped := by
          refine Decidable.byContradiction fun waits => apart ⟨inside, ?_⟩
          exact (alert.orderly.pid_ne_iff inside).mpr waits
        refine ⟨child.attentive, child.calm, child.joining, child.spinning, child.sending,
          fun _ alive => ?_⟩
        rw [reaped] at alive
        exact nomatch alive
  noticed := by
    intro i inside ended
    rw [killChildren_place] at ended
    have before := alert.noticed i inside ended
    rw [handling] at before
    refine .inr (before.resolve_left nofun |>.moved rfl fun signals place among => ?_)
    rw [handling] at place
    cases place
    refine ⟨rest, rfl, (List.mem_cons.mp among).resolve_left fun same => other same.symm⟩
  joins := by
    intro _
    have before := alert.joins (by rw [handling]; rfl)
    refine before.imp_right fun unwaited i inside => ?_
    rw [killChildren_place]
    exact unwaited i inside

theorem handle (alert : Alert setup family) {target : Relative} (inside : family.Exists target)
    (handling : (family.member target).place.isHandling = true) (unset : Int) :
    Alert setup (family.handle target unset) := by
  have orderly := alert.orderly.handle handling unset
  obtain ⟨signals, place⟩ := MemberPlace.exists_handling handling
  have elsewhere : (family.member target).place ≠ .receiving := by rw [place]; exact nofun
  unfold Family.handle at orderly ⊢
  rw [place] at orderly ⊢
  cases target with
  | child i =>
      have child := alert.children i inside
      cases signals with
      | nil =>
          have next := child.handledAll place
          refine alert.setChild _ orderly next (fun ended => ?_) 
            fun waited => absurd waited Member.handledAll_place_ne
          unfold Member.handledAll at ended
          dsimp only at ended
          split at ended
          · exact nomatch ended
          · exact nomatch ended
      | cons signal signals =>
          have next := child.handled place unset
          refine alert.setChild _ orderly next (fun ended => ?_)
            fun waited => absurd waited (Member.handledByChild_place_ne unset signals)
          cases signal with
          | sigchld => exact absurd (.inr ⟨_, place, List.mem_cons_self⟩) child.calm
          | sigterm => exact nomatch ended
          | sigint => exact nomatch ended
  | parent =>
      have here : family.parent.place = .handling signals := place
      cases signals with
      | nil =>
          have attentive := alert.parent.attentive.handledAll elsewhere
          have expects : family.parent.Expects .sigchld →
              family.parent.handledAll.Expects .sigchld := fun expects =>
            expects.moved rfl fun signals handling among => by
              rw [here] at handling
              cases handling
              exact nomatch among
          unfold Member.handledAll at attentive expects orderly ⊢
          cases stop : family.parent.stop with
          | true =>
              simp only [member, stop, if_true] at attentive expects orderly ⊢
              exact alert.setParent _ orderly ⟨attentive, rfl, nofun, nofun, nofun⟩
                (by rw [here]; rfl)
                stop.symm expects
          | false =>
              simp only [member, stop, Bool.false_eq_true, if_false] at attentive expects orderly ⊢
              exact alert.setParent _ orderly ⟨attentive, rfl, nofun, nofun, nofun⟩
                (by rw [here]; rfl)
                stop.symm expects
      | cons signal signals =>
          cases signal with
          | sigterm => exact alert.killChildren here nofun
          | sigint => exact alert.killChildren here nofun
          | sigchld =>
              exact ⟨orderly, ⟨alert.parent.attentive.moved elsewhere rfl fun place =>
                place.elim nofun fun place => place.elim nofun nofun, rfl, nofun, nofun, nofun⟩,
                alert.children, fun _ _ _ => .inl rfl, nofun⟩

theorem wait_some (alert : Alert setup family) (joining : family.parent.place.isJoining = true)
    (inside : i < family.processNumber) (ended : (family.children i).place = .ended) :
    Alert setup (family.wait setup (some i)) where
  orderly := alert.orderly.wait_some inside ended
  parent := alert.parent
  children := by
    intro other within
    show Member.AsChild setup.capacity family.asked (Function.update family.children i
      { family.children i with place := .reaped } other)
    rcases Decidable.em (other = i) with rfl | apart
    · rw [Function.update_self]
      have child := alert.children other within
      have elsewhere : (family.children other).place ≠ .receiving := by rw [ended]; exact nofun
      exact ⟨child.attentive.moved elsewhere rfl fun place => place.elim nofun fun place =>
        place.elim nofun nofun, fun expects => child.calm (expects.moved rfl nofun), rfl, nofun,
        nofun, nofun⟩
    · rw [Function.update_of_ne apart]
      exact alert.children other within
  noticed _ _ _ := .inl joining
  joins elsewhere := by
    rw [show (family.wait setup (some i)).parent = family.parent from rfl, joining] at elsewhere
    exact nomatch elsewhere

theorem wait_none (alert : Alert setup family) (joining : family.parent.place.isJoining = true)
    (gone : ∀ i < family.processNumber, (family.children i).place = .reaped) :
    Alert setup (family.wait setup none) := by
  have orderly := alert.orderly.wait_none joining gone
  have stop : (family.wait setup none).parent.stop = true := by
    refine List.all_eq_true.mpr fun j member => decide_eq_true ?_
    have inside := List.mem_range.mp member
    rw [alert.orderly.pid j inside, if_pos (gone j inside)]
  obtain ⟨signals, place⟩ := MemberPlace.exists_joining joining
  have next : (family.wait setup none).parent.place = .handling signals := by
    unfold Family.wait joined
    dsimp only
    rw [place]
  have elsewhere : family.parent.place ≠ .receiving := by rw [place]; exact nofun
  constructor
  · exact orderly
  · refine ⟨alert.parent.attentive.moved elsewhere rfl fun before => ?_, ?_, ?_, ?_, ?_⟩
    · rw [next] at before
      exact before.elim nofun fun before => before.elim nofun nofun
    · rw [next]; rfl
    · rw [next]; exact nofun
    · rw [next]; exact nofun
    · rw [next]; exact nofun
  · exact alert.children
  · intro i inside ended
    rw [show (family.wait setup none).children i = family.children i from rfl,
      gone i inside] at ended
    exact nomatch ended
  · exact fun _ => .inl stop

theorem exec (alert : Alert setup family) (small : setup.capacity ≤ SignalPipe.bufferSize)
    {step : FamilyStep} (enabled : family.Enabled step) (reliable : family.Reliable setup step) :
    Alert setup (family.exec setup step) := by
  have orderly := alert.orderly.exec enabled
  cases step with
  | signal target signal =>
      cases target with
      | parent =>
          exact alert.setParent (family.parent.sent signal) orderly (alert.parent.sent signal)
            (by rw [Member.sent_place]) Member.sent_stop fun expects => expects.sent signal
      | child i =>
          refine alert.setChild _ orderly ((alert.children i enabled).sent reliable)
            (fun ended => ?_) fun reaped => Member.sent_place.symm.trans reaped
          exact alert.noticed i enabled (Member.sent_place.symm.trans ended)
  | deliver target signal =>
      obtain ⟨inside, alive, pending⟩ := enabled
      cases target with
      | parent =>
          exact alert.setParent (family.parent.delivered setup.capacity signal) orderly
            (alert.parent.delivered signal) rfl rfl fun expects => expects.delivered reliable signal
      | child i =>
          have child := alert.children i inside
          unfold Family.exec Family.deliver at orderly ⊢
          dsimp only at orderly ⊢
          split at orderly
          · next starting =>
              rw [if_pos starting]
              split at orderly
              · next same => exact absurd (.inl (.inl (same ▸ pending))) child.calm
              · next other =>
                  rw [if_neg other]
                  exact alert.childEnds inside alive
          · next started =>
              rw [if_neg started]
              exact alert.setChild _ orderly (child.delivered pending reliable)
                (alert.noticed i inside) id
  | started i =>
      obtain ⟨inside, starting⟩ := enabled
      exact alert.setChild _ orderly ((alert.children i inside).started starting) nofun nofun
  | poll target =>
      obtain ⟨inside, polling, -⟩ := enabled
      cases target with
      | parent =>
          have here : family.parent.place = .polling := polling
          refine alert.setParent family.parent.polled orderly
            ⟨alert.parent.attentive.polled here, rfl, nofun, nofun, nofun⟩ (by rw [here]; rfl) rfl
            fun expects => expects.imp_right fun handling => ?_
          obtain ⟨signals, place, -⟩ := handling
          rw [here] at place
          exact nomatch place
      | child i => exact alert.setChild _ orderly ((alert.children i inside).polled polling) nofun nofun
  | receive target =>
      obtain ⟨inside, receiving⟩ := enabled
      cases target with
      | parent =>
          have here : family.parent.place = .receiving := receiving
          exact alert.setParent family.parent.received orderly
            ⟨alert.parent.attentive.received small, rfl, nofun, nofun, nofun⟩ (by rw [here]; rfl) rfl
            fun expects => expects.received here
      | child i =>
          exact alert.setChild _ orderly ((alert.children i inside).received receiving small) nofun
            nofun
  | handle target unset => exact alert.handle enabled.1 enabled.2 unset
  | wait child =>
      cases child with
      | some i => exact alert.wait_some enabled.1 enabled.2.1 enabled.2.2
      | none => exact alert.wait_none enabled.1 enabled.2
  | block target => exact reliable.elim
  | exit i =>
      obtain ⟨inside, leaving⟩ := enabled
      exact alert.childEnds inside (by rw [leaving]; rfl)
  | crash i => exact alert.childEnds enabled.1 enabled.2

end Alert

end Family

end HPLinuxServer.Pool
