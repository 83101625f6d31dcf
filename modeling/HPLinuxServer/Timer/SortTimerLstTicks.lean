import HPLinuxServer.Timer.SortTimerLstRuns

/-!
# What a sorted timer list fires

Any sequence of calls next to a roster of the live timers, which knows of no links and
of no order: a timer is known by the call that added it, and remembers the latest call
that added or adjusted it. Each callback enters its timer in a ledger.
-/

set_option autoImplicit false

namespace HPLinuxServer.Timer

open Memory Scheduling Refinement Agenda SortTimerLst

variable {γ υ ω : Type}

/-! ## The ledger -/

/-- A callback that was invoked, and the call that had added its timer. -/
structure Firing (γ υ : Type) where
  number : Nat
  cbFunc : γ
  userData : υ
  deriving DecidableEq, Repr

/-- The rest of the program, with the number of calls and the callbacks so far. -/
structure ListLedger (γ υ ω : Type) where
  world : ω
  calls : Nat := 0
  firings : List (Firing γ υ) := []

/-- A callback with its effect and its entry in the ledger. -/
def recorded (effect : γ → υ → ω → ω) (cbFunc : γ) (userData : Nat × υ)
    (ledger : ListLedger γ υ ω) : ListLedger γ υ ω :=
  { ledger with
    world := effect cbFunc userData.2 ledger.world
    firings := ledger.firings ++ [⟨userData.1, cbFunc, userData.2⟩] }

abbrev RecordedList (γ υ ω : Type) := SortTimerLst γ (Nat × υ) (ListLedger γ υ ω)

/-- The call with its number in the argument of the callback. -/
def ListOp.numbered (number : Nat) : ListOp γ υ → ListOp γ (Nat × υ)
  | .add entry => .add ⟨entry.timer, entry.expire, entry.cbFunc, (number, entry.userData)⟩
  | .adjust timer expire => .adjust timer expire
  | .del timer => .del timer
  | .tick cur => .tick cur

namespace SortTimerLst

def execRecorded (effect : γ → υ → ω → ω) (fuel : Nat) (list : RecordedList γ υ ω)
    (op : ListOp γ υ) : Except Fault (RecordedList γ υ ω) := do
  let list ← list.exec (quiet (recorded effect)) fuel (op.numbered list.world.calls)
  return { list with world := { list.world with calls := list.world.calls + 1 } }

def runRecorded (effect : γ → υ → ω → ω) (fuel : Nat) (list : RecordedList γ υ ω)
    (ops : List (ListOp γ υ)) : Except Fault (RecordedList γ υ ω) :=
  runOps (execRecorded effect fuel) list ops

end SortTimerLst

/-! ## The roster -/

structure Alarm (γ υ : Type) where
  number : Nat
  moved : Nat
  timer : Addr
  expire : Int
  cbFunc : γ
  userData : υ
  deriving DecidableEq, Repr

namespace Alarm

def Sooner : Alarm γ υ → Alarm γ υ → Prop := Scheduling.Sooner Alarm.expire Alarm.moved

def firing (alarm : Alarm γ υ) : Firing γ υ := ⟨alarm.number, alarm.cbFunc, alarm.userData⟩

/-- The alarm as it stands in the list. -/
def entry (alarm : Alarm γ υ) : Entry γ (Nat × υ) :=
  ⟨alarm.timer, alarm.expire, alarm.cbFunc, (alarm.number, alarm.userData)⟩

end Alarm

/-- The live timers in no particular order, and the numbers of the deleted ones. -/
structure Roster (γ υ : Type) where
  calls : Nat
  live : List (Alarm γ υ)
  deleted : List Nat
  deriving DecidableEq, Repr

namespace Roster

def init : Roster γ υ := ⟨0, [], []⟩

def step (roster : Roster γ υ) (op : ListOp γ υ) : Roster γ υ :=
  let calls := roster.calls + 1
  match op with
  | .add entry =>
      let alarm :=
        ⟨roster.calls, roster.calls, entry.timer, entry.expire, entry.cbFunc, entry.userData⟩
      { roster with calls, live := alarm :: roster.live }
  | .adjust timer expire =>
      let moved := roster.live.map fun alarm =>
        if alarm.timer = timer then { alarm with moved := roster.calls, expire } else alarm
      { roster with calls, live := moved }
  | .del timer =>
      let gone := roster.live.filter fun alarm => decide (alarm.timer = timer)
      { calls
        live := roster.live.filter fun alarm => decide (alarm.timer ≠ timer)
        deleted := roster.deleted ++ gone.map Alarm.number }
  | .tick cur => { roster with calls, live := pending Alarm.expire cur roster.live }

/-- A new timer is at an address that is not in use, only live timers are adjusted or
deleted, and an adjustment does not lower the expiration. -/
def Allowed (roster : Roster γ υ) : ListOp γ υ → Prop
  | .add entry => ∀ alarm ∈ roster.live, alarm.timer ≠ entry.timer
  | .adjust timer expire => ∃ alarm ∈ roster.live, alarm.timer = timer ∧ alarm.expire ≤ expire
  | .del timer => ∃ alarm ∈ roster.live, alarm.timer = timer
  | .tick _ => True

instance (roster : Roster γ υ) : (op : ListOp γ υ) → Decidable (roster.Allowed op)
  | .add entry => inferInstanceAs (Decidable (∀ alarm ∈ roster.live, alarm.timer ≠ entry.timer))
  | .adjust timer expire => inferInstanceAs
      (Decidable (∃ alarm ∈ roster.live, alarm.timer = timer ∧ alarm.expire ≤ expire))
  | .del timer => inferInstanceAs (Decidable (∃ alarm ∈ roster.live, alarm.timer = timer))
  | .tick _ => inferInstanceAs (Decidable True)

end Roster

/-- The list represents the live timers in this order, and each timer that was ever added
is live, has fired once or has been deleted. -/
structure Follows (list : RecordedList γ υ ω) (roster : Roster γ υ) (order : List (Alarm γ υ)) :
    Prop where
  live : order.Perm roster.live
  sorted : order.Pairwise Alarm.Sooner
  formed : WellFormed list (order.map Alarm.entry)
  calls : list.world.calls = roster.calls
  moved : ∀ alarm ∈ order, alarm.moved < roster.calls
  accounted : (order.map Alarm.number ++ list.world.firings.map Firing.number ++
    roster.deleted).Nodup
  numbered : ∀ number ∈ order.map Alarm.number ++ list.world.firings.map Firing.number ++
    roster.deleted, number < roster.calls

theorem WellFormed.withWorld {list : SortTimerLst γ υ ω} {agenda : Agenda γ υ}
    (formed : WellFormed list agenda) (world : ω) : WellFormed { list with world } agenda :=
  ⟨formed.chain.withWorld world, formed.ordered, formed.allocated⟩

theorem follows_init (world : ω) :
    Follows (SortTimerLst.init { world } : RecordedList γ υ ω) Roster.init [] where
  live := .refl _
  sorted := .nil
  formed := wellFormed_init _
  calls := rfl
  moved := by simp
  accounted := List.nodup_nil
  numbered := by simp [SortTimerLst.init, Roster.init]

/-- What the callbacks of `entries` leave in the ledger. -/
theorem foldl_recorded (effect : γ → υ → ω → ω) (order : List (Alarm γ υ))
    (ledger : ListLedger γ υ ω) :
    ∃ world, (order.map Alarm.entry).foldl
        (fun ledger entry => recorded effect entry.cbFunc entry.userData ledger) ledger =
      { ledger with world, firings := ledger.firings ++ order.map Alarm.firing } := by
  induction order generalizing ledger with
  | nil => exact ⟨ledger.world, by simp⟩
  | cons alarm order ih =>
      obtain ⟨world, folded⟩ := ih (recorded effect alarm.cbFunc (alarm.number, alarm.userData) ledger)
      refine ⟨world, ?_⟩
      rw [List.map_cons, List.foldl_cons]
      refine folded.trans ?_
      simp [recorded, Alarm.firing]

namespace Follows

variable {list : RecordedList γ υ ω} {roster : Roster γ υ} {order : List (Alarm γ υ)}

/-- Numbers that move between the live, the fired and the deleted ones. -/
theorem renumbered {before after : List Nat} {calls : Nat} (distinct : before.Nodup)
    (bounded : ∀ number ∈ before, number < calls) (same : after.Perm before) :
    after.Nodup ∧ ∀ number ∈ after, number < calls + 1 :=
  ⟨same.nodup_iff.mpr distinct, fun number member =>
    Nat.lt_succ_of_lt (bounded number (same.mem_iff.mp member))⟩

theorem addresses_order (order : List (Alarm γ υ)) :
    addresses (order.map Alarm.entry) = order.map Alarm.timer := by
  unfold addresses
  rw [List.map_map]
  rfl

theorem execRecorded_of_exec {effect : γ → υ → ω → ω} {fuel : Nat} {op : ListOp γ υ}
    {list' : RecordedList γ υ ω}
    (done : list.exec (quiet (recorded effect)) fuel (op.numbered list.world.calls) = .ok list') :
    list.execRecorded effect fuel op =
      .ok { list' with world := { list'.world with calls := list'.world.calls + 1 } } := by
  unfold execRecorded
  rw [done]
  rfl

theorem exec_add (effect : γ → υ → ω → ω) (follows : Follows list roster order) {fuel : Nat}
    {entry : Entry γ υ} (fresh : ∀ alarm ∈ roster.live, alarm.timer ≠ entry.timer)
    (enough : order.length ≤ fuel) :
    ∃ list' order', list.execRecorded effect fuel (.add entry) = .ok list' ∧
      Follows list' (roster.step (.add entry)) order' := by
  let alarm : Alarm γ υ :=
    ⟨roster.calls, roster.calls, entry.timer, entry.expire, entry.cbFunc, entry.userData⟩
  have unused : alarm.entry.timer ∉ addresses (order.map Alarm.entry) := by
    rw [addresses_order]
    intro member
    obtain ⟨other, known, same⟩ := List.mem_map.mp member
    exact fresh other (follows.live.mem_iff.mp known) same
  obtain ⟨list', done, formed, world⟩ :=
    follows.formed.exec_add (quiet (recorded effect)) unused (by simpa using enough)
  have inserted : Agenda.step (order.map Alarm.entry) (.add alarm.entry) =
      (enqueue Alarm.expire alarm order).map Alarm.entry := enqueue_map alarm order
  rw [inserted] at formed
  have numbers : ((enqueue Alarm.expire alarm order).map Alarm.number ++
      list.world.firings.map Firing.number ++ roster.deleted).Perm
      (roster.calls :: (order.map Alarm.number ++ list.world.firings.map Firing.number ++
        roster.deleted)) :=
    (((enqueue_perm alarm order).map Alarm.number).append_right _).append_right _
  have unnumbered : roster.calls ∉ order.map Alarm.number ++
      list.world.firings.map Firing.number ++ roster.deleted := fun member =>
    Nat.lt_irrefl _ (follows.numbered _ member)
  refine ⟨_, enqueue Alarm.expire alarm order,
    execRecorded_of_exec (by rw [follows.calls]; exact done), ?_⟩
  constructor
  · exact (enqueue_perm alarm order).trans (follows.live.cons alarm)
  · exact enqueue_pairwise_sooner follows.sorted follows.moved
  · exact formed.withWorld _
  · exact congrArg (· + 1) ((congrArg ListLedger.calls world).trans follows.calls)
  · intro other member
    rcases mem_enqueue.mp member with rfl | known
    · exact Nat.lt_succ_self _
    · exact Nat.lt_succ_of_lt (follows.moved other known)
  · dsimp only
    rw [world]
    exact numbers.nodup_iff.mpr (List.nodup_cons.mpr ⟨unnumbered, follows.accounted⟩)
  · dsimp only
    rw [world]
    intro number member
    rcases List.mem_cons.mp (numbers.mem_iff.mp member) with rfl | known
    · exact Nat.lt_succ_self _
    · exact Nat.lt_succ_of_lt (follows.numbered number known)

theorem distinct_timers (follows : Follows list roster order) : (order.map Alarm.timer).Nodup := by
  have distinct := follows.formed.chain.distinct
  rw [addresses_order] at distinct
  exact distinct

/-- The live timer at an address, between those in front of it and those behind it. -/
theorem cut (follows : Follows list roster order) {timer : Addr}
    (live : ∃ alarm ∈ roster.live, alarm.timer = timer) :
    ∃ left alarm right, order = left ++ alarm :: right ∧ alarm.timer = timer := by
  obtain ⟨alarm, known, same⟩ := live
  obtain ⟨left, right, split⟩ := List.append_of_mem (follows.live.mem_iff.mpr known)
  exact ⟨left, alarm, right, split, same⟩

theorem map_adjust {left right : List (Alarm γ υ)} {alarm moved : Alarm γ υ}
    (distinct : ((left ++ alarm :: right).map Alarm.timer).Nodup)
    {change : Alarm γ υ → Alarm γ υ} (changed : change alarm = moved)
    (others : ∀ other, other.timer ≠ alarm.timer → change other = other) :
    ((left ++ alarm :: right).map change).Perm (moved :: (left ++ right)) := by
  have outside := (List.nodup_cons.mp (List.nodup_middle.mp (by simpa using distinct))).1
  have kept : ∀ other ∈ left ++ right, change other = other := fun other member =>
    others other fun same => outside (by
      rw [← same, ← List.map_append]
      exact List.mem_map_of_mem member)
  rw [List.map_append, List.map_cons, changed,
    List.map_congr_left fun other member => kept other (List.mem_append_left _ member),
    List.map_congr_left fun other member => kept other (List.mem_append_right _ member)]
  rw [List.map_id', List.map_id']
  exact List.perm_middle

theorem exec_adjust (effect : γ → υ → ω → ω) (follows : Follows list roster order) {fuel : Nat}
    {timer : Addr} {expire : Int}
    (raised : ∃ alarm ∈ roster.live, alarm.timer = timer ∧ alarm.expire ≤ expire)
    (enough : order.length ≤ fuel) :
    ∃ list' order', list.execRecorded effect fuel (.adjust timer expire) = .ok list' ∧
      Follows list' (roster.step (.adjust timer expire)) order' := by
  obtain ⟨alarm, known, rfl, later⟩ := raised
  have member := follows.live.mem_iff.mpr known
  obtain ⟨left, right, rfl⟩ := List.append_of_mem member
  let moved : Alarm γ υ := { alarm with moved := roster.calls, expire }
  have distinct := follows.distinct_timers
  have entryMember : alarm.entry ∈ (left ++ alarm :: right).map Alarm.entry :=
    List.mem_map_of_mem member
  obtain ⟨list', done, formed, world⟩ := follows.formed.exec_adjust (quiet (recorded effect))
    ⟨alarm.entry, entryMember, rfl, later⟩ (by simpa using enough)
  have inserted : Agenda.step ((left ++ alarm :: right).map Alarm.entry)
      (.adjust alarm.entry.timer expire) =
        (enqueue Alarm.expire moved (left ++ right)).map Alarm.entry := by
    simp only [Agenda.step, find?_timer follows.formed.chain.distinct entryMember]
    have rest : Agenda.without ((left ++ alarm :: right).map Alarm.entry) alarm.entry.timer =
        (left ++ right).map Alarm.entry := by
      have middle := follows.formed.chain.distinct
      rw [List.map_append, List.map_cons] at middle ⊢
      rw [without_middle middle, List.map_append]
    have viewed : enqueue Entry.expire moved.entry ((left ++ right).map Alarm.entry) =
        (enqueue Alarm.expire moved (left ++ right)).map Alarm.entry := enqueue_map _ _
    rw [rest]
    exact viewed
  rw [inserted] at formed
  have sub : (left ++ right).Sublist (left ++ alarm :: right) :=
    (List.Sublist.refl _).append (List.sublist_cons_self _ _)
  have placed : (enqueue Alarm.expire moved (left ++ right)).Perm (moved :: (left ++ right)) :=
    enqueue_perm moved (left ++ right)
  have numbers : ((enqueue Alarm.expire moved (left ++ right)).map Alarm.number ++
      list.world.firings.map Firing.number ++ roster.deleted).Perm
      ((left ++ alarm :: right).map Alarm.number ++ list.world.firings.map Firing.number ++
        roster.deleted) := by
    refine List.Perm.append_right _ (List.Perm.append_right _ ?_)
    have others : ((alarm :: (left ++ right)).map Alarm.number).Perm
        ((left ++ alarm :: right).map Alarm.number) := List.perm_middle.symm.map _
    have inOrder : (moved :: (left ++ right)).map Alarm.number =
        (alarm :: (left ++ right)).map Alarm.number := rfl
    rw [← inOrder] at others
    exact (placed.map Alarm.number).trans others
  have settled := renumbered follows.accounted follows.numbered numbers
  have relocated : ((left ++ alarm :: right).map fun other =>
      if other.timer = alarm.timer then { other with moved := roster.calls, expire } else other).Perm
      (moved :: (left ++ right)) :=
    map_adjust distinct (if_pos rfl) fun other apart => if_neg apart
  refine ⟨_, enqueue Alarm.expire moved (left ++ right), execRecorded_of_exec done, ?_⟩
  constructor
  · exact placed.trans (relocated.symm.trans (follows.live.map _))
  · exact enqueue_pairwise_sooner (follows.sorted.sublist sub) fun other inOthers =>
      follows.moved other (sub.mem inOthers)
  · exact formed.withWorld _
  · exact congrArg (· + 1) ((congrArg ListLedger.calls world).trans follows.calls)
  · intro other inOrder
    rcases mem_enqueue.mp inOrder with rfl | others
    · exact Nat.lt_succ_self _
    · exact Nat.lt_succ_of_lt (follows.moved other (sub.mem others))
  · dsimp only
    rw [world]
    exact settled.1
  · dsimp only
    rw [world]
    exact settled.2

theorem exec_del (effect : γ → υ → ω → ω) (fuel : Nat) (follows : Follows list roster order)
    {timer : Addr} (live : ∃ alarm ∈ roster.live, alarm.timer = timer) :
    ∃ list' order', list.execRecorded effect fuel (.del timer) = .ok list' ∧
      Follows list' (roster.step (.del timer)) order' := by
  obtain ⟨left, alarm, right, rfl, rfl⟩ := follows.cut live
  have distinct := follows.distinct_timers
  have inList : alarm.timer ∈ addresses ((left ++ alarm :: right).map Alarm.entry) := by
    rw [addresses_order]
    exact List.mem_map_of_mem (by simp)
  obtain ⟨list', done, formed, world⟩ :=
    follows.formed.exec_del (quiet (recorded effect)) fuel inList
  have rest : Agenda.step ((left ++ alarm :: right).map Alarm.entry) (.del alarm.timer) =
      (left ++ right).map Alarm.entry := by
    have middle := follows.formed.chain.distinct
    rw [List.map_append, List.map_cons] at middle ⊢
    exact (without_middle middle).trans (List.map_append).symm
  rw [rest] at formed
  have gone : roster.live.filter (fun other => decide (other.timer = alarm.timer)) = [alarm] := by
    apply List.perm_singleton.mp
    rw [← filter_key_eq_middle Alarm.timer distinct]
    exact (follows.live.filter _).symm
  have numbers : ((left ++ right).map Alarm.number ++ list.world.firings.map Firing.number ++
      (roster.deleted ++ [alarm.number])).Perm
      ((left ++ alarm :: right).map Alarm.number ++ list.world.firings.map Firing.number ++
        roster.deleted) := by
    rw [List.perm_iff_count]
    intro number
    simp only [List.map_append, List.map_cons, List.count_append, List.count_cons, List.count_nil]
    omega
  have settled := renumbered follows.accounted follows.numbered numbers
  have sub : (left ++ right).Sublist (left ++ alarm :: right) :=
    (List.Sublist.refl _).append (List.sublist_cons_self _ _)
  refine ⟨_, left ++ right, execRecorded_of_exec done, ?_⟩
  constructor
  · rw [← filter_key_ne_middle Alarm.timer distinct]
    exact follows.live.filter _
  · exact follows.sorted.sublist sub
  · exact formed.withWorld _
  · exact congrArg (· + 1) ((congrArg ListLedger.calls world).trans follows.calls)
  · intro other inOrder
    exact Nat.lt_succ_of_lt (follows.moved other (sub.mem inOrder))
  · simp only [Roster.step, gone]
    rw [world]
    exact settled.1
  · simp only [Roster.step, gone]
    rw [world]
    exact settled.2

/-- A tick calls back the live timers that are due, in their order, and keeps the others. -/
theorem exec_tick (effect : γ → υ → ω → ω) (follows : Follows list roster order) {fuel : Nat}
    (cur : Int) (enough : order.length ≤ fuel) :
    ∃ list', list.execRecorded effect fuel (.tick cur) = .ok list' ∧
      list'.world.firings =
        list.world.firings ++ (due Alarm.expire cur order).map Alarm.firing ∧
      Follows list' (roster.step (.tick cur)) (pending Alarm.expire cur order) := by
  have dueEntries : due Entry.expire cur (order.map Alarm.entry) =
      (due Alarm.expire cur order).map Alarm.entry := due_map cur order
  obtain ⟨world, folded⟩ := foldl_recorded effect (due Alarm.expire cur order) list.world
  have called : fire (fun cbFunc userData ledger => .ok (recorded effect cbFunc userData ledger))
      (due Entry.expire cur (order.map Alarm.entry)) list.world = .ok { list.world with
        world, firings := list.world.firings ++ (due Alarm.expire cur order).map Alarm.firing } := by
    rw [fire_quiet, dueEntries, folded]
  obtain ⟨list', done, formed, world'⟩ := follows.formed.exec_tick (by simpa using enough) called
  have rest : Agenda.step (order.map Alarm.entry) (.tick cur) =
      (pending Alarm.expire cur order).map Alarm.entry := pending_map cur order
  rw [rest] at formed
  have fired : list'.world.firings =
      list.world.firings ++ (due Alarm.expire cur order).map Alarm.firing := by rw [world']
  have numbers : ((pending Alarm.expire cur order).map Alarm.number ++
      list'.world.firings.map Firing.number ++ roster.deleted).Perm
      (order.map Alarm.number ++ list.world.firings.map Firing.number ++ roster.deleted) := by
    have parts : (due Alarm.expire cur order ++ pending Alarm.expire cur order).Perm order :=
      due_append_pending_perm cur order
    have split := parts.map Alarm.number
    have same : (fun alarm : Alarm γ υ => alarm.firing.number) = Alarm.number := rfl
    rw [List.perm_iff_count]
    intro number
    have counted := split.count_eq number
    rw [fired]
    simp only [List.map_append, List.map_map, List.count_append, Function.comp_def, same]
      at counted ⊢
    omega
  have settled := renumbered follows.accounted follows.numbered numbers
  refine ⟨_, execRecorded_of_exec done, fired, ?_⟩
  constructor
  · exact follows.live.filter _
  · exact follows.sorted.filter _
  · exact formed.withWorld _
  · refine congrArg (· + 1) (Eq.trans ?_ follows.calls)
    rw [world']
  · intro other inOrder
    exact Nat.lt_succ_of_lt (follows.moved other (List.mem_of_mem_filter inOrder))
  · exact settled.1
  · exact settled.2

end Follows

/-! ## Whole runs -/

theorem Roster.length_live_step_le (roster : Roster γ υ) (op : ListOp γ υ) :
    (roster.step op).live.length ≤ roster.live.length + 1 := by
  cases op with
  | add entry => exact Nat.le_refl _
  | adjust timer expire =>
      simp only [Roster.step, List.length_map]
      exact Nat.le_succ _
  | del timer => exact Nat.le_succ_of_le (List.length_filter_le _ _)
  | tick cur => exact Nat.le_succ_of_le (List.length_filter_le _ _)

theorem Follows.exec {list : RecordedList γ υ ω} {roster : Roster γ υ} {order : List (Alarm γ υ)}
    (effect : γ → υ → ω → ω) (follows : Follows list roster order) {fuel : Nat} (op : ListOp γ υ)
    (allowed : roster.Allowed op) (enough : roster.live.length ≤ fuel) :
    ∃ list', list.execRecorded effect fuel op = .ok list' ∧
      ∃ order', Follows list' (roster.step op) order' := by
  rw [← follows.live.length_eq] at enough
  cases op with
  | add entry =>
      obtain ⟨list', order', done, follows'⟩ := follows.exec_add effect allowed enough
      exact ⟨list', done, order', follows'⟩
  | adjust timer expire =>
      obtain ⟨list', order', done, follows'⟩ := follows.exec_adjust effect allowed enough
      exact ⟨list', done, order', follows'⟩
  | del timer =>
      obtain ⟨list', order', done, follows'⟩ := follows.exec_del effect fuel allowed
      exact ⟨list', done, order', follows'⟩
  | tick cur =>
      obtain ⟨list', done, -, follows'⟩ := follows.exec_tick effect cur enough
      exact ⟨list', done, _, follows'⟩

theorem Roster.length_live_foldl_le (roster : Roster γ υ) (ops : List (ListOp γ υ)) :
    (ops.foldl Roster.step roster).live.length ≤ roster.live.length + ops.length := by
  induction ops generalizing roster with
  | nil => exact Nat.le_refl _
  | cons op ops ih =>
      have first := roster.length_live_step_le op
      have rest := ih (roster.step op)
      rw [List.foldl_cons, List.length_cons]
      omega

theorem runRecorded_follows (effect : γ → υ → ω → ω) (world : ω) {ops : List (ListOp γ υ)}
    (allowed : AllowedRun Roster.Allowed Roster.step Roster.init ops) {fuel : Nat}
    (enough : ops.length ≤ fuel) :
    ∃ list, runRecorded effect fuel (SortTimerLst.init { world }) ops = .ok list ∧
      ∃ order, Follows list (ops.foldl Roster.step Roster.init) order := by
  have bounded : AllowedRun (fun roster op => Roster.Allowed roster op ∧
      roster.live.length + 1 ≤ fuel) Roster.step Roster.init ops :=
    allowed.and_bound Roster.length_live_step_le (by
      rw [sum_map_one]
      exact (Nat.zero_add _).symm ▸ enough)
  have simulates : ∀ (list : RecordedList γ υ ω) (roster : Roster γ υ) (op : ListOp γ υ),
      (∃ order, Follows list roster order) →
      roster.Allowed op ∧ roster.live.length + 1 ≤ fuel →
      ∃ list', list.execRecorded effect fuel op = .ok list' ∧
        ∃ order', Follows list' (roster.step op) order' := by
    intro list roster op ⟨order, follows⟩ ⟨permitted, room⟩
    exact follows.exec effect op permitted (Nat.le_of_succ_le room)
  exact runOps_refines simulates ⟨[], follows_init world⟩ bounded

/-- `tick` over whole runs. In every state that is reached the list holds the live timers
by their expiration, and those with one expiration by their latest call. A tick at `cur`
calls back those that are due in this order and leaves the others in theirs. No timer has
fired twice, and none that was deleted has fired at all. -/
theorem sortTimerLst_tick_fires (effect : γ → υ → ω → ω) (world : ω) (ops : List (ListOp γ υ))
    (allowed : AllowedRun Roster.Allowed Roster.step Roster.init ops) (fuel : Nat)
    (enough : ops.length ≤ fuel) :
    ∃ list order, runRecorded effect fuel (SortTimerLst.init { world }) ops = .ok list ∧
      order.Perm (ops.foldl Roster.step Roster.init).live ∧ order.Pairwise Alarm.Sooner ∧
      WellFormed list (order.map Alarm.entry) ∧
      (∀ cur, ∃ list', list.execRecorded effect fuel (.tick cur) = .ok list' ∧
        list'.world.firings =
          list.world.firings ++ (due Alarm.expire cur order).map Alarm.firing ∧
        WellFormed list' ((pending Alarm.expire cur order).map Alarm.entry)) ∧
      (list.world.firings.map Firing.number).Nodup ∧
      ∀ number ∈ (ops.foldl Roster.step Roster.init).deleted,
        number ∉ list.world.firings.map Firing.number := by
  obtain ⟨list, done, order, follows⟩ := runRecorded_follows effect world allowed enough
  have short : order.length ≤ fuel := by
    have bound := Roster.init.length_live_foldl_le ops
    rw [follows.live.length_eq]
    exact Nat.le_trans bound ((Nat.zero_add _).symm ▸ enough)
  have accounted := List.nodup_append.mp follows.accounted
  refine ⟨list, order, done, follows.live, follows.sorted, follows.formed, fun cur => ?_,
    (List.nodup_append.mp accounted.1).2.1, fun number deleted fired => ?_⟩
  · obtain ⟨list', ticked, firings, later⟩ := follows.exec_tick effect cur short
    exact ⟨list', ticked, firings, later.formed⟩
  · exact accounted.2.2 number (List.mem_append_right _ fired) number deleted rfl

/-- Two of the timers expire together, the one that was added first by its adjustment. -/
def tieCalls : List (ListOp Unit Unit) :=
  [.add ⟨1, 3, (), ()⟩, .add ⟨2, 5, (), ()⟩, .add ⟨3, 4, (), ()⟩, .adjust 1 5, .tick 4,
    .add ⟨3, 9, (), ()⟩, .tick 5, .del 3]

theorem sortTimerLst_tick_fires_tieCalls :
    ∃ list order, runRecorded (fun _ _ _ => ()) 8 (SortTimerLst.init { world := () }) tieCalls =
        .ok list ∧
      order.Perm (tieCalls.foldl Roster.step Roster.init).live ∧ order.Pairwise Alarm.Sooner ∧
      WellFormed list (order.map Alarm.entry) ∧
      (∀ cur, ∃ list', list.execRecorded (fun _ _ _ => ()) 8 (.tick cur) = .ok list' ∧
        list'.world.firings =
          list.world.firings ++ (due Alarm.expire cur order).map Alarm.firing ∧
        WellFormed list' ((pending Alarm.expire cur order).map Alarm.entry)) ∧
      (list.world.firings.map Firing.number).Nodup ∧
      ∀ number ∈ (tieCalls.foldl Roster.step Roster.init).deleted,
        number ∉ list.world.firings.map Firing.number :=
  sortTimerLst_tick_fires (fun _ _ _ => ()) () tieCalls (by decide) 8 (by decide)

end HPLinuxServer.Timer
