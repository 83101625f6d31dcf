import HPLinuxServer.Pool.ProcessPoolConstruction

/-!
# Who holds which end

After the constructor every process has the descriptors of before, at their old numbers, and
of each pair the end that is its own. But a child also has the parent's ends of all children
before it, and keeps them: the hang-up of a pipe comes only when they have ended as well.
-/

set_option autoImplicit false

namespace HPLinuxServer.Pool

open Kernel

variable {δ : Type} {initial : FileTable δ}

namespace PoolMember

variable {member : PoolMember δ} {kept : Channel → Nat → Fin 2 → Prop}

/-- The descriptors are those of before, and the ends that are kept, under the numbers in
`m_sub_process`. -/
structure Wired (member : PoolMember δ) (initial : FileTable δ) (kept : Channel → Nat → Fin 2 → Prop) :
    Prop where
  earlier : ∀ fd other,
    member.table.lookup fd = some (.earlier other) ↔ initial.lookup fd = some other
  socket : ∀ fd channel child index,
    member.table.lookup fd = some (.socket channel child index) ↔
      kept channel child index ∧ fd = (member.subProcess child).pipefd channel index

theorem Wired.congr (wired : member.Wired initial kept) {kept' : Channel → Nat → Fin 2 → Prop}
    (same : ∀ channel child index, kept channel child index ↔ kept' channel child index) :
    member.Wired initial kept' where
  earlier := wired.earlier
  socket := fun fd channel child index => by
    rw [wired.socket, same]

theorem pipefd_setPid (member : PoolMember δ) (child : Nat) (pid : Int) (other : Nat) :
    ((member.setPid child pid).subProcess other).pipefd = (member.subProcess other).pipefd := by
  unfold setPid store
  dsimp only
  rcases Decidable.em (other = child) with rfl | apart
  · rw [Function.update_self]
  · rw [Function.update_of_ne apart]

theorem Wired.setPid (wired : member.Wired initial kept) (child : Nat) (pid : Int) :
    (member.setPid child pid).Wired initial kept where
  earlier := wired.earlier
  socket := fun fd channel other index => by
    rw [pipefd_setPid]
    exact wired.socket fd channel other index

theorem Wired.closeEnd (wired : member.Wired initial kept) (child : Nat) (channel : Channel)
    (index : Fin 2) (held : kept channel child index) :
    (member.closeEnd child channel index).Wired initial fun channel' child' index' =>
      kept channel' child' index' ∧
        ¬ (channel' = channel ∧ child' = child ∧ index' = index) := by
  have here := (wired.socket _ channel child index).mpr ⟨held, rfl⟩
  constructor
  · intro fd other
    unfold PoolMember.closeEnd
    rw [FileTable.lookup_close, ← wired.earlier]
    split
    · next same =>
        rw [same, here]
        simp
    · rfl
  · intro fd channel' child' index'
    unfold PoolMember.closeEnd
    dsimp only
    rw [FileTable.lookup_close]
    split
    · next same =>
        refine iff_of_false nofun ?_
        rintro ⟨⟨heldToo, apart⟩, same'⟩
        have there := (wired.socket _ channel' child' index').mpr ⟨heldToo, same'⟩
        rw [same, here] at there
        cases there
        exact apart ⟨rfl, rfl, rfl⟩
    · next apart =>
        rw [wired.socket]
        constructor
        · rintro ⟨heldToo, rfl⟩
          refine ⟨⟨heldToo, ?_⟩, rfl⟩
          rintro ⟨rfl, rfl, rfl⟩
          exact apart rfl
        · rintro ⟨⟨heldToo, -⟩, same⟩
          exact ⟨heldToo, same⟩

/-- Two new descriptors, one for each end. -/
theorem lookup_socketpair (member : PoolMember δ) (child : Nat) (channel : Channel) :
    ∃ first second : Nat, first ≠ second ∧ member.table.lookup first = none ∧
      member.table.lookup second = none ∧
      (∀ fd, (member.socketpair child channel).table.lookup fd =
        if fd = second then some (.socket channel child 1)
        else if fd = first then some (.socket channel child 0) else member.table.lookup fd) ∧
      ∀ other, ((member.socketpair child channel).subProcess other).pipefd =
        if other = child then
          Function.update (member.subProcess child).pipefd channel fun index =>
            if index = 0 then first else second
        else (member.subProcess other).pipefd := by
  let table := member.table
  let one := table.install (.socket channel child 0)
  let two := one.2.install (.socket channel child 1)
  have firstFree : table.lookup one.1 = none := table.lookup_install_free _
  have secondFree : one.2.lookup two.1 = none := one.2.lookup_install_free _
  have after := table.lookup_install (.socket channel child 0)
  have apart : one.1 ≠ two.1 := by
    intro same
    rw [← same, after, if_pos rfl] at secondFree
    cases secondFree
  refine ⟨one.1, two.1, apart, firstFree, ?_, ?_, ?_⟩
  · rw [after, if_neg (Ne.symm apart)] at secondFree
    exact secondFree
  · intro fd
    have whole := one.2.lookup_install (.socket channel child 1) fd
    rw [after fd] at whole
    exact whole
  · intro other
    unfold socketpair store
    dsimp only
    split
    · next same =>
        rw [same, Function.update_self]
    · next other =>
        rw [Function.update_of_ne other]

theorem Wired.socketpair (wired : member.Wired initial kept) (child : Nat) (channel : Channel)
    (fresh : ∀ index, ¬ kept channel child index) :
    (member.socketpair child channel).Wired initial fun channel' child' index =>
      kept channel' child' index ∨ channel' = channel ∧ child' = child := by
  obtain ⟨first, second, apart, firstFree, secondFree, lookup, pipefd⟩ :=
    member.lookup_socketpair child channel
  constructor
  · intro fd other
    rw [lookup, ← wired.earlier]
    split
    · next same => simp [same, secondFree]
    · split
      · next same => simp [same, firstFree]
      · rfl
  · intro fd channel' child' index
    rw [lookup, pipefd]
    rcases Decidable.em (channel' = channel ∧ child' = child) with ⟨rfl, rfl⟩ | others
    · -- the new pair
      have unheld : member.table.lookup fd ≠ some (.socket channel' child' index) := fun found =>
        fresh index ((wired.socket fd channel' child' index).mp found).1
      rw [if_pos rfl, Function.update_self]
      obtain rfl | rfl : index = 0 ∨ index = 1 := by omega
      · grind
      · grind
    · have same : (if child' = child then
          Function.update (member.subProcess child).pipefd channel fun index =>
            if index = 0 then first else second
          else (member.subProcess child').pipefd) channel' index =
          (member.subProcess child').pipefd channel' index := by
        split
        · next isChild =>
            rw [Function.update_of_ne fun isChannel => others ⟨isChannel, isChild⟩, isChild]
        · rfl
      have old := wired.socket fd channel' child' index
      rw [same, or_iff_left others]
      split
      · next isSecond =>
          rw [isSecond, secondFree] at old
          refine iff_of_false ?_ fun held =>
            Option.some_ne_none _ (old.mpr (isSecond ▸ held)).symm
          rintro ⟨⟩
          exact others ⟨rfl, rfl⟩
      · split
        · next isFirst =>
            rw [isFirst, firstFree] at old
            refine iff_of_false ?_ fun held =>
              Option.some_ne_none _ (old.mpr (isFirst ▸ held)).symm
            rintro ⟨⟩
            exact others ⟨rfl, rfl⟩
        · exact old

end PoolMember

/-- The parent keeps its end of each pair. -/
def ParentKeeps (count : Nat) (channel : Channel) (child : Nat) (index : Fin 2) : Prop :=
  child < count ∧ index = channel.parentEnd

/-- A child keeps its own ends, and those of the parent's that there were before it. -/
def ChildKeeps (rank : Nat) (channel : Channel) (child : Nat) (index : Fin 2) : Prop :=
  child < rank ∧ index = channel.parentEnd ∨ child = rank ∧ index ≠ channel.parentEnd

namespace PoolMember

variable {member : PoolMember δ} {count : Nat}

theorem Wired.paired (wired : member.Wired initial (ParentKeeps count)) :
    ((member.socketpair count .p2c).socketpair count .c2p).Wired initial
      fun channel child index => ParentKeeps count channel child index ∨ child = count := by
  have down := wired.socketpair count .p2c fun index held => Nat.lt_irrefl count held.1
  have up := down.socketpair count .c2p fun index held => by
    rcases held with held | ⟨other, -⟩
    · exact Nat.lt_irrefl count held.1
    · cases other
  apply up.congr
  intro channel child index
  cases channel with
  | p2c => simp
  | c2p => simp

theorem Wired.inChild
    (wired : member.Wired initial fun channel child index =>
      ParentKeeps count channel child index ∨ child = count) :
    (member.inChild count).Wired initial (ChildKeeps count) := by
  have down := (wired.setPid count 0).closeEnd count .p2c 0 (.inr rfl)
  have up := down.closeEnd count .c2p 1 ⟨.inr rfl, nofun⟩
  have both : (((member.setPid count 0).closeEnd count .p2c 0).closeEnd count .c2p 1).Wired initial
      (ChildKeeps count) := by
    apply up.congr
    intro channel child index
    unfold ParentKeeps ChildKeeps Channel.parentEnd
    cases channel with
    | p2c => grind
    | c2p => grind
  exact ⟨both.earlier, both.socket⟩

theorem Wired.inParent
    (wired : member.Wired initial fun channel child index =>
      ParentKeeps count channel child index ∨ child = count) (pid : Int) :
    (member.inParent count pid).Wired initial (ParentKeeps (count + 1)) := by
  have down := (wired.setPid count pid).closeEnd count .p2c 1 (.inr rfl)
  have up := down.closeEnd count .c2p 0 ⟨.inr rfl, nofun⟩
  apply up.congr
  intro channel child index
  unfold ParentKeeps Channel.parentEnd
  cases channel with
  | p2c => grind
  | c2p => grind

/-- The children that come out of the loop, numbered from the first one on. -/
structure ChildrenWired (children : List (PoolMember δ)) (initial : FileTable δ)
    (first rounds : Nat) : Prop where
  length : children.length = rounds
  child : ∀ position child, children[position]? = some child →
    child.idx = ((first + position : Nat) : Int) ∧ child.Wired initial (ChildKeeps (first + position))

theorem forkFrom_wired {fork : Nat → Int} {rounds : Nat} {constructed : Constructed δ}
    (wired : member.Wired initial (ParentKeeps count))
    (built : member.forkFrom fork count rounds = some constructed) :
    constructed.parent.idx = member.idx ∧
      constructed.parent.Wired initial (ParentKeeps (count + rounds)) ∧
      ChildrenWired constructed.children initial count rounds := by
  induction rounds generalizing member count constructed with
  | zero =>
      cases built
      exact ⟨rfl, wired, rfl, fun _ _ found => nomatch found⟩
  | succ rounds ih =>
      have paired := wired.paired
      obtain ⟨-, -, built⟩ := Option.bind_eq_some_iff.mp built
      obtain ⟨later, behind, made⟩ := Option.bind_eq_some_iff.mp built
      cases made
      obtain ⟨idx, parent, length, children⟩ := ih (paired.inParent (fork count)) behind
      rw [Nat.add_assoc, Nat.add_comm 1] at parent
      refine ⟨idx, parent, congrArg Nat.succ length, ?_⟩
      intro position child found
      cases position with
      | zero =>
          cases found
          exact ⟨rfl, paired.inChild⟩
      | succ position =>
          have place : count + 1 + position = count + (position + 1) := by omega
          rw [← place]
          exact children position child found

end PoolMember

/-! ## The hang-up of a pipe -/

/-- Every process that has come out of the constructor with this end has ended, the parent
being `none`; then the other end is hung up. -/
def Constructed.HangsUp (constructed : Constructed δ) (ended : Option Nat → Prop)
    (description : Description δ) : Prop :=
  (constructed.parent.table.Holds description → ended none) ∧
    ∀ position child, constructed.children[position]? = some child →
      child.table.Holds description → ended (some position)

theorem PoolMember.Wired.holds_iff {member : PoolMember δ} {kept : Channel → Nat → Fin 2 → Prop}
    (wired : member.Wired initial kept) {channel : Channel} {child : Nat} {index : Fin 2} :
    member.table.Holds (.socket channel child index) ↔ kept channel child index := by
  constructor
  · rintro ⟨fd, found⟩
    exact ((wired.socket fd channel child index).mp found).1
  · intro held
    exact ⟨_, (wired.socket _ channel child index).mpr ⟨held, rfl⟩⟩

theorem hangsUp_iff {constructed : Constructed δ} {count : Nat}
    (parent : constructed.parent.Wired initial (ParentKeeps count))
    (children : PoolMember.ChildrenWired constructed.children initial 0 count)
    (ended : Option Nat → Prop) (channel : Channel) {child : Nat} (index : Fin 2)
    (inside : child < count) :
    constructed.HangsUp ended (.socket channel child index) ↔
      if index = channel.parentEnd then
        ended none ∧ ∀ later, child < later → later < count → ended (some later)
      else ended (some child) := by
  have member : ∀ position, position < count → ∃ other, constructed.children[position]? = some other ∧
      (other.table.Holds (.socket channel child index) ↔ ChildKeeps position channel child index) := by
    intro position before
    rw [← children.length] at before
    have found := List.getElem?_eq_getElem before
    have wired := (children.child position _ found).2
    rw [Nat.zero_add] at wired
    exact ⟨_, found, wired.holds_iff⟩
  have before : ∀ position other, constructed.children[position]? = some other → position < count := by
    intro position other found
    rw [← children.length]
    exact (List.getElem?_eq_some_iff.mp found).1
  unfold Constructed.HangsUp
  rw [parent.holds_iff]
  split
  · next isParent =>
      constructor
      · rintro ⟨first, others⟩
        refine ⟨first ⟨inside, isParent⟩, fun later behind here => ?_⟩
        obtain ⟨other, found, holds⟩ := member later here
        exact others later other found (holds.mpr (.inl ⟨behind, isParent⟩))
      · rintro ⟨first, others⟩
        refine ⟨fun _ => first, fun position other found held => ?_⟩
        have here := before position other found
        obtain ⟨same, found', holds⟩ := member position here
        obtain rfl : other = same := Option.some.inj (found.symm.trans found')
        rcases holds.mp held with ⟨behind, -⟩ | ⟨-, notParent⟩
        · exact others position behind here
        · exact absurd isParent notParent
  · next isChild =>
      constructor
      · rintro ⟨-, others⟩
        obtain ⟨other, found, holds⟩ := member child inside
        exact others child other found (holds.mpr (.inr ⟨rfl, isChild⟩))
      · intro gone
        refine ⟨fun held => absurd held.2 isChild, fun position other found held => ?_⟩
        obtain ⟨same, found', holds⟩ := member position (before position other found)
        obtain rfl : other = same := Option.some.inj (found.symm.trans found')
        rcases holds.mp held with ⟨-, isParent⟩ | ⟨rfl, -⟩
        · exact absurd isParent isChild
        · exact gone

/-- What the constructor makes, whatever was open before and whatever the memory held: the
numbers that `run_parent` and `run_child` use stand for the right ends. A child's end of a
pipe is the child's alone. The parent's end is shared with all later children, so a child
cannot tell from its pipe that the parent is gone until they have gone too. -/
theorem processPool_wired (fork : Nat → Int) (initial : FileTable δ)
    (pipefd : Nat → Channel → Fin 2 → Nat) (processNumber : Int) (constructed : Constructed δ)
    (built : constructProcessPool fork initial pipefd processNumber = some constructed) :
    constructed.parent.idx = -1 ∧
      constructed.parent.Wired initial (ParentKeeps processNumber.toNat) ∧
      PoolMember.ChildrenWired constructed.children initial 0 processNumber.toNat ∧
      ∀ ended channel child index, child < processNumber.toNat →
        (constructed.HangsUp ended (.socket channel child index) ↔
          if index = channel.parentEnd then
            ended none ∧ ∀ later, child < later → later < processNumber.toNat → ended (some later)
          else ended (some child)) := by
  obtain ⟨-, -, built⟩ := Option.bind_eq_some_iff.mp built
  have start : PoolMember.Wired
      { idx := -1, subProcess := fun child => ⟨-1, pipefd child⟩, table := initial.map .earlier }
      initial (ParentKeeps 0) := by
    constructor
    · intro fd other
      dsimp only
      rw [FileTable.lookup_map]
      simp
    · intro fd channel child index
      dsimp only
      rw [FileTable.lookup_map]
      refine iff_of_false (by simp) ?_
      rintro ⟨held, -⟩
      exact Nat.not_lt_zero _ held.1
  obtain ⟨idx, parent, children⟩ := PoolMember.forkFrom_wired start built
  rw [Nat.zero_add] at parent
  exact ⟨idx, parent, children, fun ended channel child index inside =>
    hangsUp_iff parent children ended channel index inside⟩

/-- The first of two children. -/
theorem processPool_wired_two : ∃ constructed : Constructed Nat,
    constructProcessPool (fun child => 100 + child) ⟨[some 0, some 1, some 2, some 3]⟩
        (fun _ _ _ => 0) 2 =
        some constructed ∧
      ∀ ended, constructed.HangsUp ended (.socket .p2c 0 0) ↔
        ended none ∧ ∀ later, 0 < later → later < 2 → ended (some later) := by
  refine ⟨_, rfl, fun ended => ?_⟩
  exact (processPool_wired (fun child => 100 + child) ⟨[some 0, some 1, some 2, some 3]⟩
    (fun _ _ _ => 0) 2 _ rfl).2.2.2 ended .p2c 0 0 (by decide)

end HPLinuxServer.Pool
