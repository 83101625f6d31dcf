import Mathlib.Data.List.Perm.Subperm
import HPLinuxServer.Timer.SortTimerLstRuns

/-!
# Callbacks that edit the list

While `tick` calls a timer back, that timer is still linked at the head. The callback may
add timers that are not due yet, and adjust or delete any of the others.
-/

set_option autoImplicit false

namespace HPLinuxServer.Timer

open Memory Scheduling Refinement Agenda SortTimerLst

variable {γ υ ω : Type}

/-- The calls that a callback makes, and what it leaves of the rest of the program. -/
abbrev Script (γ υ ω : Type) := γ → υ → ω → List (ListOp γ υ) × ω

/-- Callbacks that make calls, each with room for `fuel` rounds of its loop. -/
def SortTimerLst.scripted (script : Script γ υ ω) (fuel : Nat) : Invoke γ υ ω :=
  fun cbFunc userData list => do
    let (edits, world) := script cbFunc userData list.world
    let list ← run (quiet fun _ _ world => world) fuel list edits
    return { list with world }

namespace ListOp

/-- A call that the callback of the timer at `firing` may make during a tick at `cur`. -/
def Spares (cur : Int) (firing : Addr) : ListOp γ υ → Prop
  | .add entry => cur < entry.expire
  | .adjust timer _ => timer ≠ firing
  | .del timer => timer ≠ firing
  | .tick _ => False

/-- The call cancels the timer, or moves it beyond `cur`. -/
def Withdraws (cur : Int) (timer : Addr) : ListOp γ υ → Prop
  | .add _ => False
  | .adjust other expire => other = timer ∧ cur < expire
  | .del other => other = timer
  | .tick _ => False

instance (cur : Int) (firing : Addr) : (op : ListOp γ υ) → Decidable (op.Spares cur firing)
  | .add entry => inferInstanceAs (Decidable (cur < entry.expire))
  | .adjust timer _ => inferInstanceAs (Decidable (timer ≠ firing))
  | .del timer => inferInstanceAs (Decidable (timer ≠ firing))
  | .tick _ => inferInstanceAs (Decidable False)

end ListOp

def Agenda.Permitted (cur : Int) (firing : Addr) (agenda : Agenda γ υ) (op : ListOp γ υ) : Prop :=
  agenda.Allowed op ∧ op.Spares cur firing

instance (cur : Int) (firing : Addr) (agenda : Agenda γ υ) (op : ListOp γ υ) :
    Decidable (agenda.Permitted cur firing op) :=
  inferInstanceAs (Decidable (agenda.Allowed op ∧ op.Spares cur firing))

/-- A timer that was called back, and the calls its callback made. -/
structure Invocation (γ υ : Type) where
  entry : Entry γ υ
  edits : List (ListOp γ υ)

def Invocation.timer (invocation : Invocation γ υ) : Addr := invocation.entry.timer

/-- The live timers and the rest of the program once `entry` has been called back. -/
def afterCallback (script : Script γ υ ω) (entry : Entry γ υ) (agenda : Agenda γ υ) (world : ω) :
    Agenda γ υ × ω :=
  let (edits, world) := script entry.cbFunc entry.userData world
  ((edits.foldl Agenda.step agenda).without entry.timer, world)

/-- The callbacks of a tick at `cur`: one after the other, the first timer is due. -/
inductive FiringRun (script : Script γ υ ω) (cur : Int) :
    Agenda γ υ × ω → List (Invocation γ υ) → Agenda γ υ × ω → Prop where
  | done (state : Agenda γ υ × ω) : FiringRun script cur state [] state
  | fire {entry : Entry γ υ} {rest : Agenda γ υ} {world : ω} {callbacks : List (Invocation γ υ)}
      {final : Agenda γ υ × ω} :
      entry.expire ≤ cur →
      FiringRun script cur (afterCallback script entry (entry :: rest) world) callbacks final →
      FiringRun script cur (entry :: rest, world)
        (⟨entry, (script entry.cbFunc entry.userData world).1⟩ :: callbacks) final

/-- Whichever timer is called back, its callback makes permitted calls only. -/
def Rearms (script : Script γ υ ω) (cur : Int) (agenda : Agenda γ υ) (world : ω) : Prop :=
  ∀ callbacks entry rest later,
    FiringRun script cur (agenda, world) callbacks (entry :: rest, later) → entry.expire ≤ cur →
    AllowedRun (Permitted cur entry.timer) Agenda.step (entry :: rest)
      (script entry.cbFunc entry.userData later).1

/-- No timer is called back twice, and those that are were due and have not been withdrawn
by a callback before their turn. -/
structure FiresRemaining (cur : Int) (agenda : Agenda γ υ) (callbacks : List (Invocation γ υ)) :
    Prop where
  once : (callbacks.map Invocation.timer).Nodup
  exactly : ∀ timer, timer ∈ callbacks.map Invocation.timer ↔
    timer ∈ addresses (due Entry.expire cur agenda) ∧
      ∀ callback ∈ callbacks.takeWhile fun callback => decide (callback.timer ≠ timer),
        ∀ edit ∈ callback.edits, ¬ edit.Withdraws cur timer

/-! ## What the calls leave due -/

namespace Agenda

variable {agenda : Agenda γ υ} {cur : Int} {firing : Addr} {op : ListOp γ υ}

theorem ordered_step (ordered : Ordered Entry.expire agenda) (op : ListOp γ υ) :
    Ordered Entry.expire (agenda.step op) := by
  cases op with
  | add entry => exact ordered.enqueue entry
  | adjust timer expire =>
      simp only [step]
      split
      · exact ordered
      · next entry _ =>
          have others : Ordered Entry.expire (agenda.without timer) := ordered.filter _
          exact others.enqueue { entry with expire }
  | del timer => exact ordered.filter _
  | tick cur => exact ordered.filter _

theorem mem_without {timer : Addr} {entry : Entry γ υ} :
    entry ∈ agenda.without timer ↔ entry ∈ agenda ∧ entry.timer ≠ timer := by
  simp [without]

theorem distinct_without (distinct : (addresses agenda).Nodup) (timer : Addr) :
    (addresses (agenda.without timer)).Nodup :=
  distinct.sublist (List.filter_sublist.map Entry.timer)

theorem distinct_enqueue {entry : Entry γ υ} (distinct : (addresses agenda).Nodup)
    (fresh : entry.timer ∉ addresses agenda) :
    (addresses (enqueue Entry.expire entry agenda)).Nodup := by
  have perm : (enqueue Entry.expire entry agenda).Perm (entry :: agenda) := enqueue_perm _ _
  exact (perm.map Entry.timer).nodup_iff.mpr (List.nodup_cons.mpr ⟨fresh, distinct⟩)

theorem distinct_step (distinct : (addresses agenda).Nodup) (allowed : agenda.Allowed op) :
    (addresses (agenda.step op)).Nodup := by
  cases op with
  | add entry => exact distinct_enqueue distinct allowed
  | adjust timer expire =>
      obtain ⟨entry, member, rfl, -⟩ := allowed
      simp only [step, find?_timer distinct member]
      refine distinct_enqueue (distinct_without distinct _) fun there => ?_
      obtain ⟨other, inOthers, same⟩ := List.mem_map.mp there
      exact (mem_without.mp inOthers).2 same
  | del timer => exact distinct_without distinct timer
  | tick cur => exact distinct.sublist (List.filter_sublist.map Entry.timer)

theorem mem_addresses_due {timer : Addr} :
    timer ∈ addresses (due Entry.expire cur agenda) ↔
      ∃ entry ∈ agenda, entry.expire ≤ cur ∧ entry.timer = timer := by
  simp [addresses, due, and_assoc]

/-- After a permitted call the same timers are due, but for the one that it withdraws. -/
theorem mem_due_step_iff (distinct : (addresses agenda).Nodup)
    (permitted : agenda.Permitted cur firing op) (timer : Addr) :
    timer ∈ addresses (due Entry.expire cur (agenda.step op)) ↔
      timer ∈ addresses (due Entry.expire cur agenda) ∧ ¬ op.Withdraws cur timer := by
  obtain ⟨allowed, spares⟩ := permitted
  rw [mem_addresses_due, mem_addresses_due]
  cases op with
  | add entry =>
      have notDue : ¬ entry.expire ≤ cur := Int.not_le.mpr spares
      simp [step, ListOp.Withdraws, notDue]
  | adjust other expire =>
      obtain ⟨entry, member, rfl, raised⟩ := allowed
      simp only [step, find?_timer distinct member, mem_enqueue, mem_without, ListOp.Withdraws]
      constructor
      · rintro ⟨found, present, isDue, same⟩
        rcases present with rfl | ⟨inAgenda, apart⟩
        · exact ⟨⟨entry, member, Int.le_trans raised isDue, same⟩, fun moved =>
            Int.not_le.mpr moved.2 isDue⟩
        · exact ⟨⟨found, inAgenda, isDue, same⟩, fun moved => apart (same.trans moved.1.symm)⟩
      · rintro ⟨⟨found, inAgenda, isDue, same⟩, stays⟩
        by_cases isMoved : entry.timer = timer
        · have early : expire ≤ cur := Int.not_lt.mp fun late => stays ⟨isMoved, late⟩
          exact ⟨{ entry with expire }, .inl rfl, early, isMoved⟩
        · exact ⟨found, .inr ⟨inAgenda, fun moved => isMoved (moved.symm.trans same)⟩, isDue, same⟩
  | del other =>
      simp only [step, mem_without, ListOp.Withdraws]
      constructor
      · rintro ⟨found, ⟨inAgenda, apart⟩, isDue, same⟩
        exact ⟨⟨found, inAgenda, isDue, same⟩, fun gone => apart (same.trans gone.symm)⟩
      · rintro ⟨⟨found, inAgenda, isDue, same⟩, stays⟩
        exact ⟨found, ⟨inAgenda, fun gone => stays (gone.symm.trans same)⟩, isDue, same⟩
  | tick now => exact absurd spares id

/-- The timer that is being called back stays at the head. -/
theorem head?_step {entry : Entry γ υ} (ordered : Ordered Entry.expire agenda)
    (distinct : (addresses agenda).Nodup) (head : agenda.head? = some entry)
    (isDue : entry.expire ≤ cur) (permitted : agenda.Permitted cur entry.timer op) :
    (agenda.step op).head? = some entry := by
  obtain ⟨rest, rfl⟩ := List.head?_eq_some_iff.mp head
  obtain ⟨allowed, spares⟩ := permitted
  have kept : ∀ timer, timer ≠ entry.timer →
      (without (entry :: rest) timer).head? = some entry := fun timer apart => by
    unfold without
    rw [List.filter_cons_of_pos (by simpa using apart.symm)]
    rfl
  cases op with
  | add other => exact head?_enqueue rfl (Int.le_trans isDue (Int.le_of_lt spares))
  | adjust timer expire =>
      obtain ⟨other, member, rfl, raised⟩ := allowed
      have least : entry.expire ≤ other.expire := by
        rcases List.mem_cons.mp member with rfl | member
        · exact Int.le_refl _
        · exact (List.pairwise_cons.mp ordered).1 other member
      simp only [step, find?_timer distinct member]
      exact head?_enqueue (kept _ spares) (Int.le_trans least raised)
  | del timer => exact kept timer spares
  | tick now => exact absurd spares id

theorem edits_keep {entry : Entry γ υ} {edits : List (ListOp γ υ)}
    (ordered : Ordered Entry.expire agenda) (distinct : (addresses agenda).Nodup)
    (head : agenda.head? = some entry) (isDue : entry.expire ≤ cur)
    (permitted : AllowedRun (Permitted cur entry.timer) step agenda edits) :
    (edits.foldl step agenda).head? = some entry ∧
      ∀ timer, timer ∈ addresses (due Entry.expire cur (edits.foldl step agenda)) ↔
        timer ∈ addresses (due Entry.expire cur agenda) ∧
          ∀ edit ∈ edits, ¬ edit.Withdraws cur timer := by
  induction edits generalizing agenda with
  | nil => exact ⟨head, fun timer => by simp⟩
  | cons edit edits ih =>
      obtain ⟨first, later⟩ := permitted
      obtain ⟨stays, left⟩ := ih (ordered_step ordered edit) (distinct_step distinct first.1)
        (head?_step ordered distinct head isDue first) later
      refine ⟨stays, fun timer => ?_⟩
      rw [List.foldl_cons, left timer, mem_due_step_iff distinct first timer, List.forall_mem_cons,
        and_assoc]

theorem ordered_edits (ordered : Ordered Entry.expire agenda) (edits : List (ListOp γ υ)) :
    Ordered Entry.expire (edits.foldl step agenda) := by
  induction edits generalizing agenda with
  | nil => exact ordered
  | cons edit edits ih => exact ih (ordered_step ordered edit)

theorem distinct_edits {edits : List (ListOp γ υ)} (distinct : (addresses agenda).Nodup)
    (allowed : AllowedRun Allowed step agenda edits) :
    (addresses (edits.foldl step agenda)).Nodup := by
  induction edits generalizing agenda with
  | nil => exact distinct
  | cons edit edits ih => exact ih (distinct_step distinct allowed.1) allowed.2

end Agenda

/-! ## One callback -/

namespace WellFormed

variable {list : SortTimerLst γ υ ω} {agenda : Agenda γ υ} {cur : Int} {firing : Addr}

theorem exec_edit (invoke : Invoke γ υ ω) (formed : WellFormed list agenda) {fuel : Nat}
    {op : ListOp γ υ} (permitted : agenda.Permitted cur firing op)
    (enough : agenda.length ≤ fuel) :
    ∃ list', list.exec invoke fuel op = .ok list' ∧ WellFormed list' (agenda.step op) ∧
      list'.world = list.world := by
  cases op with
  | add entry => exact formed.exec_add invoke permitted.1 enough
  | adjust timer expire => exact formed.exec_adjust invoke permitted.1 enough
  | del timer => exact formed.exec_del invoke fuel permitted.1
  | tick now => exact absurd permitted.2 id

theorem run_edits (invoke : Invoke γ υ ω) (formed : WellFormed list agenda)
    {edits : List (ListOp γ υ)}
    (permitted : AllowedRun (Permitted cur firing) Agenda.step agenda edits) {fuel : Nat}
    (enough : agenda.length + edits.length ≤ fuel) :
    ∃ list', run invoke fuel list edits = .ok list' ∧
      WellFormed list' (edits.foldl Agenda.step agenda) ∧ list'.world = list.world := by
  have bounded : AllowedRun (fun agenda op => agenda.Permitted cur firing op ∧
      agenda.length + 1 ≤ fuel) Agenda.step agenda edits :=
    permitted.and_bound Agenda.length_step_le (by rwa [sum_map_one])
  have simulates : ∀ (list' : SortTimerLst γ υ ω) (agenda : Agenda γ υ) (op : ListOp γ υ),
      WellFormed list' agenda ∧ list'.world = list.world →
      agenda.Permitted cur firing op ∧ agenda.length + 1 ≤ fuel →
      ∃ next, list'.exec invoke fuel op = .ok next ∧
        WellFormed next (agenda.step op) ∧ next.world = list.world := by
    intro list' agenda op ⟨formed, world⟩ ⟨permitted, room⟩
    obtain ⟨next, done, formed', world'⟩ :=
      formed.exec_edit invoke permitted (Nat.le_of_succ_le room)
    exact ⟨next, done, formed', world'.trans world⟩
  exact runOps_refines simulates ⟨formed, rfl⟩ bounded

/-- The callback of the timer at the head, up to the deletion of that timer. -/
theorem tickLoop_scripted {script : Script γ υ ω} {entry : Entry γ υ} {rest : Agenda γ υ}
    (formed : WellFormed list (entry :: rest)) (isDue : entry.expire ≤ cur)
    (permitted : AllowedRun (Permitted cur entry.timer) Agenda.step (entry :: rest)
      (script entry.cbFunc entry.userData list.world).1) {fuel : Nat}
    (enough : rest.length + 1 + (script entry.cbFunc entry.userData list.world).1.length ≤ fuel)
    (rounds : Nat) :
    ∃ list', tickLoop (scripted script fuel) cur (rounds + 1) list (some entry.timer) =
        tickLoop (scripted script fuel) cur rounds list' list'.head ∧
      WellFormed list' (afterCallback script entry (entry :: rest) list.world).1 ∧
      list'.world = (afterCallback script entry (entry :: rest) list.world).2 := by
  obtain ⟨edited, ran, formed', world⟩ :=
    formed.run_edits (quiet fun _ _ world => world) permitted enough
  obtain ⟨stays, -⟩ := edits_keep formed.ordered formed.chain.distinct rfl isDue permitted
  obtain ⟨left, split⟩ := List.head?_eq_some_iff.mp stays
  have invoked : scripted script fuel entry.cbFunc entry.userData list =
      .ok { edited with world := (script entry.cbFunc entry.userData list.world).2 } := by
    unfold scripted
    dsimp only
    rw [ran]
    rfl
  have kept : Chain { edited with world := (script entry.cbFunc entry.userData list.world).2 }
      (entry :: left) := split ▸ formed'.chain.withWorld _
  obtain ⟨list', unrolled, chain, world', gone, others⟩ :=
    tickLoop_called rounds formed.chain (Int.not_lt.mpr isDue) invoked kept
  have removed : (afterCallback script entry (entry :: rest) list.world).1 = left := by
    have middle : (addresses ([] ++ entry :: left)).Nodup := kept.distinct
    show ((script entry.cbFunc entry.userData list.world).1.foldl Agenda.step
      (entry :: rest)).without entry.timer = left
    rw [split]
    exact without_middle middle
  rw [removed]
  refine ⟨list', unrolled, ⟨chain, ?_, fun address => ?_⟩, world'⟩
  · exact (List.pairwise_cons.mp (split ▸ formed'.ordered)).2
  · have fresh : entry.timer ∉ addresses left := (List.nodup_cons.mp kept.distinct).1
    have allocated := formed'.allocated address
    rw [split] at allocated
    by_cases same : address = entry.timer
    · subst same
      simp [gone, fresh]
    · rw [others address same]
      simpa [same] using allocated

end WellFormed

/-! ## The whole tick -/

theorem Rearms.of_idle {script : Script γ υ ω} {cur : Int} {agenda : Agenda γ υ} {world : ω}
    (idle : ∀ entry ∈ agenda, cur < entry.expire) : Rearms script cur agenda world := by
  intro callbacks entry rest later run isDue
  cases run with
  | done => exact absurd isDue (Int.not_le.mpr (idle entry List.mem_cons_self))
  | fire early => exact absurd early (Int.not_le.mpr (idle _ List.mem_cons_self))

theorem Rearms.of_first {script : Script γ υ ω} {cur : Int} {entry : Entry γ υ}
    {rest : Agenda γ υ} {world : ω}
    (permitted : AllowedRun (Permitted cur entry.timer) Agenda.step (entry :: rest)
      (script entry.cbFunc entry.userData world).1)
    (rearms : Rearms script cur (afterCallback script entry (entry :: rest) world).1
      (afterCallback script entry (entry :: rest) world).2) :
    Rearms script cur (entry :: rest) world := by
  intro callbacks other others later run isDue
  cases run with
  | done => exact permitted
  | fire _ run => exact rearms _ other others later run isDue

theorem Rearms.later {script : Script γ υ ω} {cur : Int} {entry : Entry γ υ} {rest : Agenda γ υ}
    {world : ω} (rearms : Rearms script cur (entry :: rest) world) (isDue : entry.expire ≤ cur) :
    Rearms script cur (afterCallback script entry (entry :: rest) world).1
      (afterCallback script entry (entry :: rest) world).2 :=
  fun _ other others later run => rearms _ other others later (.fire isDue run)

/-- What is due once a timer has been called back. -/
theorem mem_due_afterCallback {script : Script γ υ ω} {cur : Int} {entry : Entry γ υ}
    {rest : Agenda γ υ} {world : ω} (ordered : Ordered Entry.expire (entry :: rest))
    (distinct : (addresses (entry :: rest)).Nodup) (isDue : entry.expire ≤ cur)
    (permitted : AllowedRun (Permitted cur entry.timer) Agenda.step (entry :: rest)
      (script entry.cbFunc entry.userData world).1) (timer : Addr) :
    timer ∈ addresses (due Entry.expire cur
        (afterCallback script entry (entry :: rest) world).1) ↔
      timer ≠ entry.timer ∧ timer ∈ addresses (due Entry.expire cur (entry :: rest)) ∧
        ∀ edit ∈ (script entry.cbFunc entry.userData world).1, ¬ edit.Withdraws cur timer := by
  obtain ⟨-, left⟩ := edits_keep ordered distinct rfl isDue permitted
  rw [← left timer, mem_addresses_due, mem_addresses_due]
  simp only [afterCallback, mem_without]
  constructor
  · intro ⟨found, ⟨present, apart⟩, early, same⟩
    exact ⟨same ▸ apart, found, present, early, same⟩
  · intro ⟨apart, found, present, early, same⟩
    exact ⟨found, ⟨present, fun other => apart (same.symm.trans other)⟩, early, same⟩

namespace FiresRemaining

variable {cur : Int} {agenda : Agenda γ υ}

theorem nil (idle : ∀ entry ∈ agenda, cur < entry.expire) : FiresRemaining cur agenda [] where
  once := .nil
  exactly := fun timer => by
    have notDue : timer ∉ addresses (due Entry.expire cur agenda) := fun member => by
      obtain ⟨entry, present, early, -⟩ := mem_addresses_due.mp member
      exact Int.not_le.mpr (idle entry present) early
    simp [notDue]

theorem cons {entry : Entry γ υ} {edits : List (ListOp γ υ)} {later : Agenda γ υ}
    {callbacks : List (Invocation γ υ)} (fires : FiresRemaining cur later callbacks)
    (isDue : entry.timer ∈ addresses (due Entry.expire cur agenda))
    (left : ∀ timer, timer ∈ addresses (due Entry.expire cur later) ↔
      timer ≠ entry.timer ∧ timer ∈ addresses (due Entry.expire cur agenda) ∧
        ∀ edit ∈ edits, ¬ edit.Withdraws cur timer) :
    FiresRemaining cur agenda (⟨entry, edits⟩ :: callbacks) where
  once := List.nodup_cons.mpr ⟨fun again => by
    have still := ((fires.exactly entry.timer).mp again).1
    exact ((left entry.timer).mp still).1 rfl, fires.once⟩
  exactly := fun timer => by
    by_cases same : entry.timer = timer
    · subst same
      simp [Invocation.timer, isDue]
    · have waits : ((⟨entry, edits⟩ : Invocation γ υ) :: callbacks).takeWhile
          (fun callback => decide (callback.timer ≠ timer)) =
            ⟨entry, edits⟩ :: callbacks.takeWhile fun callback => decide (callback.timer ≠ timer) :=
        List.takeWhile_cons_of_pos (decide_eq_true same)
      rw [List.map_cons, List.mem_cons, waits, List.forall_mem_cons, fires.exactly timer, left timer]
      have apart : timer ≠ entry.timer := fun other => same other.symm
      simp only [Invocation.timer, apart, false_or, ne_eq, not_false_eq_true, true_and]
      exact and_assoc

end FiresRemaining

theorem length_due_lt {cur : Int} {agenda later : Agenda γ υ} {timer : Addr}
    (distinct : (addresses later).Nodup)
    (isDue : timer ∈ addresses (due Entry.expire cur agenda))
    (left : ∀ other, other ∈ addresses (due Entry.expire cur later) →
      other ≠ timer ∧ other ∈ addresses (due Entry.expire cur agenda)) :
    (due Entry.expire cur later).length < (due Entry.expire cur agenda).length := by
  have dueDistinct : (addresses (due Entry.expire cur later)).Nodup :=
    distinct.sublist (List.filter_sublist.map Entry.timer)
  have fresh : timer ∉ addresses (due Entry.expire cur later) := fun member =>
    (left timer member).1 rfl
  have inside : timer :: addresses (due Entry.expire cur later) ⊆
      addresses (due Entry.expire cur agenda) :=
    List.cons_subset.mpr ⟨isDue, fun other member => (left other member).2⟩
  have bound := (List.subperm_of_subset (List.nodup_cons.mpr ⟨fresh, dueDistinct⟩) inside).length_le
  simp only [List.length_cons, addresses, List.length_map] at bound
  exact bound

theorem tickLoop_idle (invoke : Invoke γ υ ω) {cur : Int} {list : SortTimerLst γ υ ω}
    {agenda : Agenda γ υ} (formed : WellFormed list agenda)
    (idle : ∀ entry ∈ agenda, cur < entry.expire) (rounds : Nat) :
    tickLoop invoke cur (rounds + 1) list list.head = .ok list := by
  cases agenda with
  | nil =>
      have head : list.head = none := formed.chain.head
      rw [head]
      rfl
  | cons entry rest =>
      have head : list.head = some entry.timer := formed.chain.head
      obtain ⟨node, found, expire, -⟩ := formed.chain.first_node
      rw [head, tickLoop, load_some node found]
      simp only [ok_bind, expire, if_pos (idle entry List.mem_cons_self), pure_eq_ok]

/-- The callbacks that a tick invokes, by induction on the number of timers that are due,
which each callback lowers. -/
theorem exists_firingRun (script : Script γ υ ω) (cur : Int) (bound : Nat) {agenda : Agenda γ υ}
    {world : ω} (ordered : Ordered Entry.expire agenda) (distinct : (addresses agenda).Nodup)
    (rearms : Rearms script cur agenda world)
    (few : (due Entry.expire cur agenda).length < bound) :
    ∃ callbacks final, FiringRun script cur (agenda, world) callbacks final ∧
      FiresRemaining cur agenda callbacks ∧ ∀ entry ∈ final.1, cur < entry.expire := by
  induction bound generalizing agenda world with
  | zero => exact absurd few (Nat.not_lt_zero _)
  | succ bound ih =>
      by_cases idle : ∀ entry ∈ agenda, cur < entry.expire
      · exact ⟨[], (agenda, world), .done _, .nil idle, idle⟩
      · obtain ⟨entry, rest, rfl, isDue⟩ := ordered.first_due idle
        have permitted := rearms [] entry rest world (.done _) isDue
        have left := mem_due_afterCallback ordered distinct isDue permitted
        have dueFirst : entry.timer ∈ addresses (due Entry.expire cur (entry :: rest)) :=
          mem_addresses_due.mpr ⟨entry, List.mem_cons_self, isDue, rfl⟩
        have laterDistinct := distinct_without
          (distinct_edits distinct (permitted.mono fun _ _ permitted => permitted.1)) entry.timer
        have laterOrdered : Ordered Entry.expire
            (afterCallback script entry (entry :: rest) world).1 :=
          (ordered_edits ordered _).filter _
        have fewer := length_due_lt laterDistinct dueFirst fun timer member =>
          ⟨((left timer).mp member).1, ((left timer).mp member).2.1⟩
        obtain ⟨callbacks, final, run, fires, idle⟩ := ih laterOrdered laterDistinct
          (rearms.later isDue) (Nat.lt_of_lt_of_le fewer (Nat.le_of_lt_succ few))
        exact ⟨_, final, .fire isDue run, fires.cons dueFirst left, idle⟩

/-- The loop of `tick` goes through these callbacks, whatever list represents the timers. -/
theorem FiringRun.tickLoop {script : Script γ υ ω} {cur : Int} {state final : Agenda γ υ × ω}
    {callbacks : List (Invocation γ υ)} (run : FiringRun script cur state callbacks final)
    (rearms : Rearms script cur state.1 state.2) (idle : ∀ entry ∈ final.1, cur < entry.expire) :
    ∃ enough, ∀ fuel rounds, enough ≤ fuel → enough ≤ rounds → ∀ list : SortTimerLst γ υ ω,
      WellFormed list state.1 → list.world = state.2 → ∃ list',
        SortTimerLst.tickLoop (scripted script fuel) cur rounds list list.head = .ok list' ∧
          WellFormed list' final.1 ∧ list'.world = final.2 := by
  induction run with
  | done state =>
      refine ⟨1, fun fuel rounds _ positive list formed world => ?_⟩
      obtain ⟨rounds, rfl⟩ := Nat.exists_eq_add_of_le' positive
      exact ⟨list, tickLoop_idle _ formed idle rounds, formed, world⟩
  | @fire entry rest world callbacks final isDue run ih =>
      have permitted := rearms [] entry rest world (.done _) isDue
      obtain ⟨enough, finishes⟩ := ih (rearms.later isDue) idle
      refine ⟨max (enough + 1)
        (rest.length + 1 + (script entry.cbFunc entry.userData world).1.length), ?_⟩
      intro fuel rounds room more list formed same
      dsimp only at formed same
      subst same
      obtain ⟨rounds, rfl⟩ : ∃ fewer, rounds = fewer + 1 := ⟨rounds - 1, by omega⟩
      have head : list.head = some entry.timer := formed.chain.head
      obtain ⟨list₁, unrolled, formed₁, world₁⟩ :=
        formed.tickLoop_scripted isDue permitted (Nat.le_trans (Nat.le_max_right _ _) room) rounds
      obtain ⟨list', done, formed', world'⟩ :=
        finishes fuel rounds (by omega) (by omega) list₁ formed₁ world₁
      rw [head]
      exact ⟨list', unrolled.trans done, formed', world'⟩

/-- `tick` tolerates callbacks that edit the list. It ends once every live timer is waiting;
the callbacks and their calls have led to the timers that the list represents then. -/
theorem sortTimerLst_tick_callbacks (script : Script γ υ ω) (cur : Int)
    (list : SortTimerLst γ υ ω) (agenda : Agenda γ υ) (formed : WellFormed list agenda)
    (rearms : Rearms script cur agenda list.world) :
    ∃ callbacks final enough, FiringRun script cur (agenda, list.world) callbacks final ∧
      FiresRemaining cur agenda callbacks ∧ (∀ entry ∈ final.1, cur < entry.expire) ∧
      ∀ fuel, enough ≤ fuel → ∃ list', tick (scripted script fuel) cur fuel list = .ok list' ∧
        WellFormed list' final.1 ∧ list'.world = final.2 := by
  obtain ⟨callbacks, final, run, fires, idle⟩ := exists_firingRun script cur _ formed.ordered
    formed.chain.distinct rearms (Nat.lt_succ_self _)
  obtain ⟨enough, finishes⟩ := run.tickLoop rearms idle
  exact ⟨callbacks, final, enough, run, fires, idle, fun fuel room =>
    finishes fuel fuel room room list formed rfl⟩

/-- The first callback adds a timer, cancels one that is due and moves another one; the
second one uses the address of the first timer again. -/
def sampleScript : Script Nat Unit Unit
  | 1, _, world => ([.add ⟨4, 12, 0, ()⟩, .del 2, .adjust 3 11], world)
  | 5, _, world => ([.add ⟨1, 8, 0, ()⟩], world)
  | _, _, world => ([], world)

def sampleAgenda : Agenda Nat Unit := [⟨1, 3, 1, ()⟩, ⟨2, 4, 0, ()⟩, ⟨3, 5, 0, ()⟩, ⟨5, 6, 5, ()⟩]

theorem sampleScript_rearms : Rearms sampleScript 6 sampleAgenda () := by
  refine .of_first (by decide) ?_
  have second : (afterCallback sampleScript ⟨1, 3, 1, ()⟩ sampleAgenda ()).1 =
      [⟨5, 6, 5, ()⟩, ⟨3, 11, 0, ()⟩, ⟨4, 12, 0, ()⟩] := by decide +kernel
  show Rearms sampleScript 6 (afterCallback sampleScript ⟨1, 3, 1, ()⟩ sampleAgenda ()).1 ()
  rw [second]
  exact .of_first (by decide) (.of_idle (by decide +kernel))

theorem sortTimerLst_tick_callbacks_sampleScript :
    ∃ list : SortTimerLst Nat Unit Unit,
      run (quiet fun _ _ _ => ()) 4 (SortTimerLst.init ()) (sampleAgenda.map .add) = .ok list ∧
      ∃ callbacks final enough, FiringRun sampleScript 6 (sampleAgenda, list.world) callbacks final ∧
        FiresRemaining 6 sampleAgenda callbacks ∧ (∀ entry ∈ final.1, 6 < entry.expire) ∧
        ∀ fuel, enough ≤ fuel → ∃ list', tick (scripted sampleScript fuel) 6 fuel list = .ok list' ∧
          WellFormed list' final.1 ∧ list'.world = final.2 := by
  obtain ⟨list, made, formed⟩ := run_wellFormed (fun _ _ _ => ()) (wellFormed_init ())
    (by decide : AllowedRun Agenda.Allowed Agenda.step [] (sampleAgenda.map .add))
    (Nat.le_refl 4)
  have stored : (sampleAgenda.map ListOp.add).foldl Agenda.step [] = sampleAgenda := by decide
  rw [stored] at formed
  exact ⟨list, made, sortTimerLst_tick_callbacks sampleScript 6 list sampleAgenda formed
    sampleScript_rearms⟩

end HPLinuxServer.Timer
