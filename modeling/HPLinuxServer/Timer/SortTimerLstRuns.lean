import HPLinuxServer.Refinement.Runs
import HPLinuxServer.Timer.SortTimerLstProperties

/-!
# Runs of a sorted timer list

Any sequence of the four member functions, from an empty list. The list goes
through its operations next to the agenda it represents.
-/

set_option autoImplicit false

namespace HPLinuxServer.Timer

open Memory Scheduling Refinement Agenda SortTimerLst

variable {γ υ ω : Type}

/-- A call by the owner of the list: `add` allocates a timer at an address chosen
by `new`, fills it in and calls `add_timer`; `adjust` changes `expire` in place
and calls `adjust_timer`. -/
inductive ListOp (γ υ : Type) where
  | add (entry : Entry γ υ)
  | adjust (timer : Addr) (expire : Int)
  | del (timer : Addr)
  | tick (cur : Int)
  deriving DecidableEq, Repr

def SortTimerLst.exec (invoke : Invoke γ υ ω) (fuel : Nat) (list : SortTimerLst γ υ ω) :
    ListOp γ υ → Except Fault (SortTimerLst γ υ ω)
  | .add entry =>
      let timer : UtilTimer γ υ :=
        { expire := entry.expire, cbFunc := entry.cbFunc, userData := entry.userData }
      addTimer fuel { list with timers := list.timers.write entry.timer timer } (some entry.timer)
  | .adjust timer expire => do
      let list ← list.storeExpire (some timer) expire
      adjustTimer fuel list (some timer)
  | .del timer => delTimer list (some timer)
  | .tick cur => tick invoke cur fuel list

namespace Agenda

/-- The live timers other than the one at `timer`. -/
def without (agenda : Agenda γ υ) (timer : Addr) : Agenda γ υ :=
  agenda.filter fun entry => decide (entry.timer ≠ timer)

/-- What each call does to the live timers and their order. -/
def step (agenda : Agenda γ υ) : ListOp γ υ → Agenda γ υ
  | .add entry => enqueue Entry.expire entry agenda
  | .adjust timer expire =>
      match agenda.find? fun entry => entry.timer = timer with
      | none => agenda
      | some entry => enqueue Entry.expire { entry with expire } (agenda.without timer)
  | .del timer => agenda.without timer
  | .tick cur => pending Entry.expire cur agenda

/-- What the callers keep to: a new timer is at an address that is not in use,
only live timers are adjusted or deleted, and an adjustment does not lower the
expiration. -/
def Allowed (agenda : Agenda γ υ) : ListOp γ υ → Prop
  | .add entry => entry.timer ∉ addresses agenda
  | .adjust timer expire => ∃ entry ∈ agenda, entry.timer = timer ∧ entry.expire ≤ expire
  | .del timer => timer ∈ addresses agenda
  | .tick _ => True

instance (agenda : Agenda γ υ) : (op : ListOp γ υ) → Decidable (agenda.Allowed op)
  | .add entry => inferInstanceAs (Decidable (entry.timer ∉ addresses agenda))
  | .adjust timer expire => inferInstanceAs
      (Decidable (∃ entry ∈ agenda, entry.timer = timer ∧ entry.expire ≤ expire))
  | .del timer => inferInstanceAs (Decidable (timer ∈ addresses agenda))
  | .tick _ => inferInstanceAs (Decidable True)

theorem length_step_le (agenda : Agenda γ υ) (op : ListOp γ υ) :
    (agenda.step op).length ≤ agenda.length + 1 := by
  cases op with
  | add entry => exact Nat.le_of_eq (enqueue_perm entry agenda).length_eq
  | adjust timer expire =>
      simp only [step]
      split
      · omega
      · rename_i entry _
        rw [(enqueue_perm _ _).length_eq, List.length_cons]
        exact Nat.succ_le_succ (List.length_filter_le _ _)
  | del timer => exact Nat.le_succ_of_le (List.length_filter_le _ _)
  | tick cur => exact Nat.le_succ_of_le (List.length_filter_le _ _)

theorem without_middle {left right : Agenda γ υ} {entry : Entry γ υ}
    (distinct : (addresses (left ++ entry :: right)).Nodup) :
    (left ++ entry :: right).without entry.timer = left ++ right :=
  filter_key_ne_middle Entry.timer distinct

theorem find?_timer {agenda : Agenda γ υ} (distinct : (addresses agenda).Nodup)
    {entry : Entry γ υ} (member : entry ∈ agenda) :
    (agenda.find? fun other => other.timer = entry.timer) = some entry := by
  cases result : agenda.find? fun other => other.timer = entry.timer with
  | none => simpa using List.find?_eq_none.mp result entry member
  | some other =>
      have same : other.timer = entry.timer := by simpa using List.find?_some result
      rw [eq_of_timer_eq distinct (List.mem_of_find?_eq_some result) member same]

/-- A call that moves a timer changes its expiration and keeps the others. -/
theorem step_adjust_perm {agenda : Agenda γ υ} (distinct : (addresses agenda).Nodup)
    {entry : Entry γ υ} (member : entry ∈ agenda) (expire : Int) :
    (agenda.step (.adjust entry.timer expire)).Perm
      ({ entry with expire } :: agenda.without entry.timer) := by
  simp only [step, find?_timer distinct member]
  exact enqueue_perm _ _

theorem mem_addresses_enqueue {agenda : Agenda γ υ} {entry : Entry γ υ} {address : Addr} :
    address ∈ addresses (enqueue Entry.expire entry agenda) ↔
      address = entry.timer ∨ address ∈ addresses agenda := by
  unfold addresses
  rw [((enqueue_perm entry agenda).map Entry.timer).mem_iff, List.map_cons, List.mem_cons]

end Agenda

/-- The list is a linked copy of an ordered agenda, and no other timer is
allocated. -/
structure WellFormed (list : SortTimerLst γ υ ω) (agenda : Agenda γ υ) : Prop where
  chain : Chain list agenda
  ordered : Ordered Entry.expire agenda
  allocated : ∀ address, (list.timers address).isSome = true ↔ address ∈ addresses agenda

theorem wellFormed_init (world : ω) :
    WellFormed (SortTimerLst.init world : SortTimerLst γ υ ω) [] where
  chain := ⟨rfl, by simp, trivial, by simp, by simp⟩
  ordered := List.Pairwise.nil
  allocated := by simp [SortTimerLst.init]

namespace WellFormed

variable {list : SortTimerLst γ υ ω} {agenda : Agenda γ υ}

theorem exec_add (invoke : Invoke γ υ ω) (formed : WellFormed list agenda) {fuel : Nat}
    {entry : Entry γ υ} (fresh : entry.timer ∉ addresses agenda) (enough : agenda.length ≤ fuel) :
    ∃ list', list.exec invoke fuel (.add entry) = .ok list' ∧
      WellFormed list' (agenda.step (.add entry)) ∧ list'.world = list.world := by
  let timer : UtilTimer γ υ :=
    { expire := entry.expire, cbFunc := entry.cbFunc, userData := entry.userData }
  have made : Chain { list with timers := list.timers.write entry.timer timer } agenda :=
    formed.chain.frame fun address member => Heap.write_other _ _ fun same =>
      fresh (same ▸ member)
  obtain ⟨list', done, chain', keeps⟩ := SortTimerLst.addTimer_spec made formed.ordered
    (by simp [Stored, UtilTimer.payload, Entry.payload, timer]) (Heap.write_self _ _ _) rfl rfl
    fresh enough
  refine ⟨list', done, ⟨chain', formed.ordered.enqueue entry, fun address => ?_⟩, keeps.world⟩
  rw [keeps.cells, step, mem_addresses_enqueue]
  by_cases same : address = entry.timer
  · simp [same]
  · simp [same, formed.allocated]

theorem exec_del (invoke : Invoke γ υ ω) (fuel : Nat) (formed : WellFormed list agenda)
    {timer : Addr} (live : timer ∈ addresses agenda) :
    ∃ list', list.exec invoke fuel (.del timer) = .ok list' ∧
      WellFormed list' (agenda.step (.del timer)) ∧ list'.world = list.world := by
  obtain ⟨entry, member, rfl⟩ := List.mem_map.mp live
  obtain ⟨left, right, rfl⟩ := List.append_of_mem member
  obtain ⟨list', done, chain', removes⟩ := SortTimerLst.delTimer_spec formed.chain
  have fresh := formed.chain.fresh_of_middle
  rw [step, without_middle formed.chain.distinct]
  refine ⟨list', done, ⟨chain', ?_, fun address => ?_⟩, removes.world⟩
  · refine formed.ordered.sublist (List.Sublist.append (List.Sublist.refl _) ?_)
    exact List.sublist_cons_self _ _
  · by_cases same : address = entry.timer
    · subst same
      simpa [removes.gone] using fresh
    · rw [removes.others address same, formed.allocated]
      simp [same]

/-- A store to `expire` makes the entry's deadline the new one, in place. -/
theorem chain_raise {left right : Agenda γ υ} {entry : Entry γ υ}
    (chain : Chain list (left ++ entry :: right)) (expire : Int) :
    Chain { list with timers := list.timers.modify entry.timer fun timer => { timer with expire } }
      (left ++ { entry with expire } :: right) where
  head := by simpa using chain.head
  tail _ := by simpa using chain.tail (by simp)
  linked := by
    have linked := chain.linked
    simp only [addresses_append, addresses_cons] at linked ⊢
    exact linked.modify entry.timer (fun _ => rfl) fun _ => rfl
  distinct := by simpa using chain.distinct
  stored other member := by
    have elsewhere : ∀ other ∈ left ++ right, Stored
        (list.timers.modify entry.timer fun timer => { timer with expire }) other := by
      intro other member
      have different : other.timer ≠ entry.timer := fun same =>
        chain.fresh_of_middle (same ▸ mem_addresses member)
      unfold Stored
      rw [Heap.modify_other _ _ different]
      exact chain.stored other (by simpa using (List.mem_append.mp member).imp_right Or.inr)
    rcases List.mem_append.mp member with member | member
    · exact elsewhere other (List.mem_append_left _ member)
    · rcases List.mem_cons.mp member with rfl | member
      · obtain ⟨node, found, -, cbFunc, userData⟩ := chain.found entry (by simp)
        simp [Stored, found, UtilTimer.payload, Entry.payload, cbFunc, userData]
      · exact elsewhere other (List.mem_append_right _ member)

theorem exec_adjust (invoke : Invoke γ υ ω) (formed : WellFormed list agenda) {fuel : Nat}
    {timer : Addr} {expire : Int}
    (raised : ∃ entry ∈ agenda, entry.timer = timer ∧ entry.expire ≤ expire)
    (enough : agenda.length ≤ fuel) :
    ∃ list', list.exec invoke fuel (.adjust timer expire) = .ok list' ∧
      WellFormed list' (agenda.step (.adjust timer expire)) ∧ list'.world = list.world := by
  obtain ⟨entry, member, rfl, later⟩ := raised
  have lookup := find?_timer formed.chain.distinct member
  obtain ⟨left, right, rfl⟩ := List.append_of_mem member
  obtain ⟨node, found, -⟩ := formed.chain.node
  have others : Ordered Entry.expire (left ++ right) :=
    formed.ordered.sublist (List.Sublist.append (List.Sublist.refl _) (List.sublist_cons_self _ _))
  have passed : ∀ other ∈ left, other.expire ≤ expire := by
    intro other inLeft
    have before := (List.pairwise_append.mp formed.ordered).2.2 other inLeft entry
      List.mem_cons_self
    exact Int.le_trans before later
  obtain ⟨list', done, chain', keeps⟩ := adjustTimer_spec (chain_raise formed.chain expire) others
    passed (by simp at enough; omega : right.length ≤ fuel)
  have stepped : Agenda.step (left ++ entry :: right) (.adjust entry.timer expire) =
      enqueue Entry.expire { entry with expire } (left ++ right) := by
    simp only [step, lookup, without_middle formed.chain.distinct]
  rw [stepped]
  refine ⟨list', ?_, ⟨chain', others.enqueue _, fun address => ?_⟩, keeps.world⟩
  · simp only [SortTimerLst.exec]
    rw [storeExpire_some node found]
    exact done
  · rw [keeps.cells, Heap.modify_isSome, formed.allocated, mem_addresses_enqueue]
    simp [or_left_comm]

/-- `tick` with callbacks that leave the list alone. -/
theorem exec_tick {effect : γ → υ → ω → Except Fault ω} (formed : WellFormed list agenda)
    {fuel : Nat} {cur : Int} (enough : agenda.length ≤ fuel) {world : ω}
    (called : fire effect (due Entry.expire cur agenda) list.world = .ok world) :
    ∃ list', list.exec (confined effect) fuel (.tick cur) = .ok list' ∧
      WellFormed list' (agenda.step (.tick cur)) ∧ list'.world = world := by
  obtain ⟨list', done, chain', world', gone, others⟩ :=
    tick_spec formed.chain formed.ordered enough called
  refine ⟨list', done, ⟨chain', formed.ordered.filter _, fun address => ?_⟩, world'⟩
  have split : ∀ entry ∈ agenda, entry ∈ due Entry.expire cur agenda ∨
      entry ∈ pending Entry.expire cur agenda := by
    intro entry member
    by_cases waiting : cur < entry.expire
    · exact .inr (List.mem_filter.mpr ⟨member, by simpa using waiting⟩)
    · exact .inl (List.mem_filter.mpr ⟨member, by simpa using Int.not_lt.mp waiting⟩)
  by_cases fired : address ∈ addresses (due Entry.expire cur agenda)
  · obtain ⟨entry, dueEntry, rfl⟩ := List.mem_map.mp fired
    rw [gone entry dueEntry]
    simp only [Option.isSome_none, Bool.false_eq_true, false_iff]
    intro waiting
    obtain ⟨other, pendingOther, same⟩ := List.mem_map.mp waiting
    obtain rfl := eq_of_timer_eq formed.chain.distinct (List.mem_of_mem_filter pendingOther)
      (List.mem_of_mem_filter dueEntry) same
    have late := (List.mem_filter.mp dueEntry).2
    have early := (List.mem_filter.mp pendingOther).2
    simp only [decide_eq_true_eq] at late early
    omega
  · rw [others address fired, formed.allocated]
    constructor
    · intro live
      obtain ⟨entry, member, rfl⟩ := List.mem_map.mp live
      rcases split entry member with dueEntry | pendingEntry
      · exact absurd (mem_addresses dueEntry) fired
      · exact mem_addresses pendingEntry
    · intro live
      obtain ⟨entry, member, rfl⟩ := List.mem_map.mp live
      exact mem_addresses (List.mem_of_mem_filter member)

/-- Every allowed call succeeds and does to the agenda what it should. -/
theorem exec (effect : γ → υ → ω → ω) (formed : WellFormed list agenda) {fuel : Nat}
    (op : ListOp γ υ) (allowed : agenda.Allowed op) (enough : agenda.length ≤ fuel) :
    ∃ list', list.exec (quiet effect) fuel op = .ok list' ∧ WellFormed list' (agenda.step op) := by
  cases op with
  | add entry =>
      obtain ⟨list', done, formed', -⟩ := formed.exec_add (quiet effect) allowed enough
      exact ⟨list', done, formed'⟩
  | adjust timer expire =>
      obtain ⟨list', done, formed', -⟩ := formed.exec_adjust (quiet effect) allowed enough
      exact ⟨list', done, formed'⟩
  | del timer =>
      obtain ⟨list', done, formed', -⟩ := formed.exec_del (quiet effect) fuel allowed
      exact ⟨list', done, formed'⟩
  | tick cur =>
      obtain ⟨list', done, formed', -⟩ := formed.exec_tick enough (fire_quiet effect _ _)
      exact ⟨list', done, formed'⟩

end WellFormed

/-! ## Whole runs -/

namespace SortTimerLst

/-- The calls of `ops` in order, each with room for `fuel` rounds of its loop. -/
def run (invoke : Invoke γ υ ω) (fuel : Nat) (list : SortTimerLst γ υ ω)
    (ops : List (ListOp γ υ)) : Except Fault (SortTimerLst γ υ ω) :=
  runOps (exec invoke fuel) list ops

/-- Every allowed sequence of calls runs to its end without a fault, in a number
of rounds per loop that the length of the sequence bounds. -/
theorem run_wellFormed (effect : γ → υ → ω → ω) {list : SortTimerLst γ υ ω}
    {agenda : Agenda γ υ} (formed : WellFormed list agenda) {ops : List (ListOp γ υ)}
    (allowed : AllowedRun Agenda.Allowed Agenda.step agenda ops) {fuel : Nat}
    (enough : agenda.length + ops.length ≤ fuel) :
    ∃ list', run (quiet effect) fuel list ops = .ok list' ∧
      WellFormed list' (ops.foldl Agenda.step agenda) := by
  have bounded : AllowedRun (fun agenda op => Agenda.Allowed agenda op ∧
      agenda.length + 1 ≤ fuel) Agenda.step agenda ops :=
    allowed.and_bound Agenda.length_step_le (by rwa [sum_map_one])
  apply runOps_refines ?_ formed bounded
  intro list agenda op formed allowed
  exact formed.exec effect op allowed.1 (Nat.le_of_succ_le allowed.2)

end SortTimerLst

/-- `entry` stands behind every timer due no later and before every other, and
the others are in the order they had without it. -/
def Placed (entry : Entry γ υ) (before after : Agenda γ υ) : Prop :=
  ∃ left right, before.without entry.timer = left ++ right ∧ after = left ++ entry :: right ∧
    (∀ other ∈ left, other.expire ≤ entry.expire) ∧
    ∀ other ∈ right, entry.expire < other.expire

theorem placed_enqueue {agenda : Agenda γ υ} (ordered : Ordered Entry.expire agenda)
    (entry : Entry γ υ) :
    Placed entry agenda (enqueue Entry.expire entry (agenda.without entry.timer)) := by
  have others : Ordered Entry.expire (agenda.without entry.timer) := ordered.filter _
  obtain ⟨left, right, split, inserted, before, behind⟩ := others.enqueue_cut entry
  exact ⟨left, right, split, inserted, before, behind⟩

/-- Where a call puts the timer it inserts or moves. -/
def PlacedBy (op : ListOp γ υ) (before after : Agenda γ υ) : Prop :=
  match op with
  | .add entry => Placed entry before after
  | .adjust timer expire =>
      ∃ entry ∈ before, entry.timer = timer ∧ Placed { entry with expire } before after
  | .del _ => True
  | .tick _ => True

theorem placedBy_step {agenda : Agenda γ υ} (ordered : Ordered Entry.expire agenda)
    (distinct : (addresses agenda).Nodup) {op : ListOp γ υ} (allowed : agenda.Allowed op) :
    PlacedBy op agenda (agenda.step op) := by
  cases op with
  | add entry =>
      have absent : agenda.without entry.timer = agenda :=
        List.filter_eq_self.mpr fun other member => by
          have different : other.timer ≠ entry.timer := fun same =>
            allowed (same ▸ mem_addresses member)
          simpa using different
      have placed := placed_enqueue ordered entry
      rwa [absent] at placed
  | adjust timer expire =>
      obtain ⟨entry, member, rfl, -⟩ := allowed
      refine ⟨entry, member, rfl, ?_⟩
      simp only [step, find?_timer distinct member]
      exact placed_enqueue ordered { entry with expire }
  | del timer => trivial
  | tick cur => trivial

/-- The representation invariant of `sort_timer_lst` over every sequence of calls
from an empty list. The run does not fault and its end represents the live
timers. The last call put its timer in its place. While the head is null every
next call succeeds whatever the tail holds, so a stale tail is never followed. -/
theorem sortTimerLst_invariant (effect : γ → υ → ω → ω) (world : ω) (ops : List (ListOp γ υ))
    (allowed : AllowedRun Agenda.Allowed Agenda.step [] ops) (fuel : Nat)
    (enough : ops.length ≤ fuel) :
    ∃ list, SortTimerLst.run (quiet effect) fuel (SortTimerLst.init world) ops = .ok list ∧
      WellFormed list (ops.foldl Agenda.step []) ∧
      (list.head = none ↔ ops.foldl Agenda.step [] = []) ∧
      (∀ earlier op, ops = earlier ++ [op] →
        PlacedBy op (earlier.foldl Agenda.step []) (ops.foldl Agenda.step [])) ∧
      (list.head = none → ∀ op, Agenda.Allowed [] op → ∀ stale, ∃ list',
        { list with tail := stale }.exec (quiet effect) fuel op = .ok list' ∧
          WellFormed list' (Agenda.step [] op)) := by
  obtain ⟨list, done, formed⟩ :=
    SortTimerLst.run_wellFormed effect (wellFormed_init world) allowed (by simpa using enough)
  have empty : list.head = none ↔ ops.foldl Agenda.step [] = [] := by
    rw [formed.chain.head, List.head?_eq_none_iff]
    exact List.map_eq_nil_iff
  refine ⟨list, done, formed, empty, ?_, ?_⟩
  · rintro earlier op rfl
    obtain ⟨allowedEarlier, allowedOp, -⟩ := allowedRun_append_iff.mp allowed
    obtain ⟨_, _, formedEarlier⟩ :=
      SortTimerLst.run_wellFormed effect (wellFormed_init world) allowedEarlier (Nat.le_refl _)
    rw [List.foldl_append]
    exact placedBy_step formedEarlier.ordered formedEarlier.chain.distinct allowedOp
  · intro noHead op allowedOp stale
    rw [empty.mp noHead] at formed
    have anyTail : WellFormed { list with tail := stale } ([] : Agenda γ υ) :=
      ⟨⟨formed.chain.head, by simp, trivial, by simp, by simp⟩, List.Pairwise.nil,
        formed.allocated⟩
    exact anyTail.exec effect op allowedOp (Nat.zero_le _)

/-- Three timers, one moved behind another, one expired, one deleted, and an
address in use again. -/
def sampleCalls : List (ListOp Unit Unit) :=
  [.add ⟨1, 5, (), ()⟩, .add ⟨2, 3, (), ()⟩, .add ⟨3, 4, (), ()⟩, .adjust 2 5, .tick 4, .del 1,
    .tick 9, .add ⟨3, 2, (), ()⟩]

theorem sortTimerLst_invariant_sampleCalls :
    ∃ list, SortTimerLst.run (quiet fun _ _ _ => ()) 8 (SortTimerLst.init ()) sampleCalls =
        .ok list ∧
      WellFormed list (sampleCalls.foldl Agenda.step []) ∧
      (list.head = none ↔ sampleCalls.foldl Agenda.step [] = []) ∧
      (∀ earlier op, sampleCalls = earlier ++ [op] →
        PlacedBy op (earlier.foldl Agenda.step []) (sampleCalls.foldl Agenda.step [])) ∧
      (list.head = none → ∀ op, Agenda.Allowed [] op → ∀ stale, ∃ list',
        { list with tail := stale }.exec (quiet fun _ _ _ => ()) 8 op = .ok list' ∧
          WellFormed list' (Agenda.step [] op)) :=
  sortTimerLst_invariant (fun _ _ _ => ()) () sampleCalls (by decide) 8 (by decide)

/-! ## Changes of the expiration in either direction -/

/-- Once `expire` has been stored in a timer of the list, `adjust_timer` leads to a list of
the same timers that is sorted again. -/
def RestoresOrder (invoke : Invoke γ υ ω) (fuel : Nat) (list : SortTimerLst γ υ ω)
    (others : Agenda γ υ) (entry : Entry γ υ) (expire : Int) : Prop :=
  ∃ list' agenda, list.exec invoke fuel (.adjust entry.timer expire) = .ok list' ∧
    WellFormed list' agenda ∧ agenda.Perm ({ entry with expire } :: others)

section Adjust

variable {list : SortTimerLst γ υ ω} {left right : Agenda γ υ} {entry : Entry γ υ}
  {expire : Int} (invoke : Invoke γ υ ω) (fuel : Nat)

theorem WellFormed.others_ordered (formed : WellFormed list (left ++ entry :: right)) :
    Ordered Entry.expire (left ++ right) :=
  formed.ordered.sublist (List.Sublist.append (List.Sublist.refl _) (List.sublist_cons_self _ _))

/-- The successor is all that `adjust_timer` compares with before it leaves. -/
theorem WellFormed.exec_adjust_stays (formed : WellFormed list (left ++ entry :: right))
    (before : ∀ next, right.head? = some next → expire < next.expire) :
    ∃ list', list.exec invoke fuel (.adjust entry.timer expire) = .ok list' ∧
      Chain list' (left ++ { entry with expire } :: right) := by
  obtain ⟨node, found, -⟩ := formed.chain.node
  have chain := chain_raise formed.chain expire
  refine ⟨_, ?_, chain⟩
  simp only [SortTimerLst.exec]
  rw [storeExpire_some node found]
  have stays : adjustTimer fuel _ (some ({ entry with expire } : Entry γ υ).timer) = _ :=
    adjustTimer_stays chain before
  exact stays

theorem WellFormed.restoresOrder (formed : WellFormed list (left ++ entry :: right))
    (passed : ∀ other ∈ left, other.expire ≤ expire) (enough : right.length ≤ fuel) :
    RestoresOrder invoke fuel list (left ++ right) entry expire := by
  obtain ⟨node, found, -⟩ := formed.chain.node
  obtain ⟨list', done, chain', keeps⟩ :=
    adjustTimer_spec (chain_raise formed.chain expire) formed.others_ordered passed enough
  refine ⟨list', _, ?_, ⟨chain', formed.others_ordered.enqueue _, fun address => ?_⟩,
    enqueue_perm _ _⟩
  · simp only [SortTimerLst.exec]
    rw [storeExpire_some node found]
    exact done
  · rw [keeps.cells, Heap.modify_isSome, formed.allocated, mem_addresses_enqueue]
    simp [or_left_comm]

/-- A timer that is now due before its predecessor, and with it before its successor, stays. -/
theorem WellFormed.not_restoresOrder {previous : Entry γ υ}
    (formed : WellFormed list (left ++ entry :: right)) (before : previous ∈ left)
    (lowered : expire < previous.expire) :
    ¬ RestoresOrder invoke fuel list (left ++ right) entry expire := by
  obtain ⟨leftOrdered, -, across⟩ := List.pairwise_append.mp formed.others_ordered
  have beforeNext : ∀ next, right.head? = some next → expire < next.expire := fun next first =>
    Int.lt_of_lt_of_le lowered (across previous before next (List.mem_of_head? first))
  obtain ⟨list', done, chain⟩ := formed.exec_adjust_stays invoke fuel beforeNext
  intro ⟨adjusted, agenda, done', formed', _⟩
  obtain rfl : list' = adjusted := Except.ok.inj (done.symm.trans done')
  obtain rfl := chain.unique formed'.chain
  have inOrder := (List.pairwise_append.mp formed'.ordered).2.2 previous before _
    List.mem_cons_self
  exact Int.not_le.mpr lowered inOrder

/-- Whatever the new expiration is, the list is in order again exactly if the timer is the
first one or is due no earlier than its predecessor. -/
theorem adjustTimer_restores_iff (formed : WellFormed list (left ++ entry :: right))
    (expire : Int) (enough : right.length ≤ fuel) :
    RestoresOrder invoke fuel list (left ++ right) entry expire ↔
      ∀ previous, left.getLast? = some previous → previous.expire ≤ expire := by
  constructor
  · intro restores previous last
    by_contra lowered
    exact formed.not_restoresOrder invoke fuel (List.mem_of_getLast? last) (Int.not_le.mp lowered)
      restores
  · intro passed
    refine formed.restoresOrder invoke fuel (fun other member => ?_) enough
    rcases List.eq_nil_or_concat left with rfl | ⟨front, last, rfl⟩
    · exact absurd member List.not_mem_nil
    · rw [List.concat_eq_append] at formed passed member
      have bound := passed last List.getLast?_concat
      rcases List.mem_append.mp member with earlier | isLast
      · have leftOrdered := (List.pairwise_append.mp formed.ordered).1
        have before := (List.pairwise_append.mp leftOrdered).2.2 other earlier last (by simp)
        exact Int.le_trans before bound
      · obtain rfl := List.mem_singleton.mp isLast
        exact bound

end Adjust

/-- Two timers, the second of which is to be due before the first. -/
def steppedBack : Agenda Unit Unit := [⟨1, 5, (), ()⟩, ⟨2, 6, (), ()⟩]

theorem steppedBack_list (world : ω) : ∃ list : SortTimerLst Unit Unit ω,
    SortTimerLst.run (quiet fun _ _ world => world) 2 (SortTimerLst.init world)
        (steppedBack.map .add) = .ok list ∧
      WellFormed list steppedBack := by
  have stored : (steppedBack.map ListOp.add).foldl Agenda.step [] = steppedBack := by decide
  obtain ⟨list, made, formed⟩ :=
    SortTimerLst.run_wellFormed (fun _ _ world => world) (wellFormed_init world)
      (by decide : AllowedRun Agenda.Allowed Agenda.step [] (steppedBack.map .add)) (Nat.le_refl 2)
  exact ⟨list, made, stored ▸ formed⟩

theorem adjustTimer_restores_iff_steppedBack :
    ∃ list : SortTimerLst Unit Unit Unit, WellFormed list steppedBack ∧
      (RestoresOrder (quiet fun _ _ world => world) 2 list [⟨1, 5, (), ()⟩] ⟨2, 6, (), ()⟩ 7 ↔
        ∀ previous, [(⟨1, 5, (), ()⟩ : Entry Unit Unit)].getLast? = some previous →
          previous.expire ≤ 7) := by
  obtain ⟨list, -, formed⟩ := steppedBack_list ()
  have split : WellFormed list ([⟨1, 5, (), ()⟩] ++ ⟨2, 6, (), ()⟩ :: []) := formed
  exact ⟨list, formed, adjustTimer_restores_iff _ 2 split 7 (Nat.zero_le 2)⟩

/-- The tail is due at 3 now and stays behind a timer that is due at 5. -/
theorem adjustTimer_leaves_unsorted :
    ∃ list : SortTimerLst Unit Unit Unit,
      SortTimerLst.run (quiet fun _ _ world => world) 2 (SortTimerLst.init ())
          (steppedBack.map .add) = .ok list ∧
        WellFormed list steppedBack ∧
        ¬ RestoresOrder (quiet fun _ _ world => world) 2 list [⟨1, 5, (), ()⟩] ⟨2, 6, (), ()⟩ 3 := by
  obtain ⟨list, made, formed⟩ := steppedBack_list ()
  have split : WellFormed list ([⟨1, 5, (), ()⟩] ++ ⟨2, 6, (), ()⟩ :: []) := formed
  exact ⟨list, made, formed, split.not_restoresOrder _ 2 List.mem_cons_self (by decide)⟩

end HPLinuxServer.Timer
