import HPLinuxServer.Scheduling.Agenda
import HPLinuxServer.Timer.TimeHeapRuns

/-!
# What the time heap fires

Runs of calls, `tick` among them, next to the alarms that are set. The alarms are in no
order, and a removal takes any of those that expire first. A cancelled alarm stays set
until its time, but has nothing to call.
-/

set_option autoImplicit false

namespace HPLinuxServer.Timer

open Memory Scheduling Refinement

variable {γ υ : Type}

/-- A call on the heap; `cur` is the time at which it ticks. -/
inductive HeapCall (γ υ : Type) where
  | op (op : HeapOp γ υ)
  | tick (cur : Int)
  deriving Repr

/-! ## Alarms -/

/-- A timer that was added and has neither been popped nor fired. -/
structure HeapAlarm (γ υ : Type) where
  timer : Addr
  expire : Int
  cbFunc : Option γ
  userData : υ
  cancelled : Bool
  deriving DecidableEq, Repr

namespace HeapAlarm

def entry (alarm : HeapAlarm γ υ) : HeapEntry := ⟨alarm.timer, alarm.expire⟩

/-- The timer as it is stored. -/
def node (alarm : HeapAlarm γ υ) : HeapTimer γ υ :=
  ⟨alarm.expire, if alarm.cancelled then none else alarm.cbFunc, alarm.userData⟩

/-- The callback that is owed, with its argument. -/
def invocation (alarm : HeapAlarm γ υ) : Option (γ × υ) :=
  if alarm.cancelled then none else alarm.cbFunc.map fun cbFunc => (cbFunc, alarm.userData)

def cancel (alarm : HeapAlarm γ υ) : HeapAlarm γ υ := { alarm with cancelled := true }

theorem node_calls (alarm : HeapAlarm γ υ) :
    (alarm.node.cbFunc.toList.map fun cbFunc => (cbFunc, alarm.node.userData)) =
      alarm.invocation.toList := by
  unfold node invocation
  cases alarm.cancelled with
  | true => rfl
  | false =>
      dsimp only
      cases alarm.cbFunc with
      | none => rfl
      | some cbFunc => rfl

end HeapAlarm

inductive AlarmStep : List (HeapAlarm γ υ) → HeapCall γ υ → List (HeapAlarm γ υ) → Prop where
  | add (alarms : List (HeapAlarm γ υ)) (timer : Addr) (expire : Int) (cbFunc : Option γ)
      (userData : υ) (newArray : Addr) :
      AlarmStep alarms (.op (.add timer expire cbFunc userData newArray))
        (⟨timer, expire, cbFunc, userData, false⟩ :: alarms)
  | del (alarms : List (HeapAlarm γ υ)) (timer : Ptr) :
      AlarmStep alarms (.op (.del timer))
        (alarms.map fun alarm => if timer = some alarm.timer then alarm.cancel else alarm)
  | popNothing : AlarmStep [] (.op .pop) []
  | pop {alarms rest : List (HeapAlarm γ υ)} {first : HeapAlarm γ υ}
      (chosen : alarms.Perm (first :: rest))
      (least : ∀ other ∈ rest, first.expire ≤ other.expire) : AlarmStep alarms (.op .pop) rest
  | tick (alarms : List (HeapAlarm γ υ)) (cur : Int) :
      AlarmStep alarms (.tick cur) (pending HeapAlarm.expire cur alarms)

theorem AlarmStep.length_le {alarms alarms' : List (HeapAlarm γ υ)} {call : HeapCall γ υ}
    (step : AlarmStep alarms call alarms') : alarms'.length ≤ alarms.length + 1 := by
  cases step with
  | add => exact Nat.le_refl _
  | del =>
      rw [List.length_map]
      exact Nat.le_succ _
  | popNothing => exact Nat.zero_le _
  | pop chosen least =>
      rw [chosen.length_eq, List.length_cons]
      omega
  | tick => exact Nat.le_succ_of_le (List.length_filter_le _ _)

/-! ## Calls on the heap -/

namespace TimeHeap

def call (fuel : Nat) (heap : TimeHeap γ υ) : HeapOp γ υ → Except Fault (TimeHeap γ υ)
  | .add timer expire cbFunc userData newArray =>
      addTimer fuel { heap with timers := heap.timers.write timer { expire, cbFunc, userData } }
        (some timer) newArray
  | .del timer => heap.delTimer timer
  | .pop => heap.popTimer fuel

def exec (fuel : Nat) (heap : TimeHeap γ υ) : HeapCall γ υ → Except Fault (TimeHeap γ υ)
  | .op op => heap.call fuel op
  | .tick cur => do
      let (heap, _) ← heap.tick fuel cur
      return heap

/-- The removals that are due at `cur`, up to `rounds` of them, leave a heap each. -/
def PopsFit (fuel : Nat) (cur : Int) : Nat → TimeHeap γ υ → Prop
  | 0, _ => True
  | rounds + 1, heap =>
      heap.curSize = 0 ∨ ¬ heap.ExpiresBy 0 cur ∨
        heap.PopFits ∧
          match heap.popTimer fuel with
          | .ok next => PopsFit fuel cur rounds next
          | .error _ => True

instance PopsFit.decidable (fuel : Nat) (cur : Int) :
    ∀ rounds (heap : TimeHeap γ υ), Decidable (PopsFit fuel cur rounds heap)
  | 0, _ => inferInstanceAs (Decidable True)
  | rounds + 1, heap =>
      have (result : Except Fault (TimeHeap γ υ)) : Decidable (match result with
          | .ok next => PopsFit fuel cur rounds next
          | .error _ => True) :=
        match result with
        | .ok next => PopsFit.decidable fuel cur rounds next
        | .error _ => inferInstanceAs (Decidable True)
      inferInstanceAs (Decidable (heap.curSize = 0 ∨ ¬ heap.ExpiresBy 0 cur ∨ heap.PopFits ∧ _))

theorem PopsFit.next {fuel rounds : Nat} {cur : Int} {heap : TimeHeap γ υ}
    (fits : PopsFit fuel cur (rounds + 1) heap) (started : heap.curSize ≠ 0)
    (isDue : heap.ExpiresBy 0 cur) :
    heap.PopFits ∧ ∀ next, heap.popTimer fuel = .ok next → PopsFit fuel cur rounds next := by
  rcases fits with empty | waiting | ⟨fits, later⟩
  · exact absurd empty started
  · exact absurd isDue waiting
  · refine ⟨fits, fun next popped => ?_⟩
    rw [popped] at later
    exact later

def TickFits (fuel : Nat) (heap : TimeHeap γ υ) (cur : Int) : Prop :=
  PopsFit fuel cur heap.curSize.toNat heap

instance (fuel : Nat) (heap : TimeHeap γ υ) (cur : Int) : Decidable (heap.TickFits fuel cur) :=
  PopsFit.decidable fuel cur heap.curSize.toNat heap

/-- A call that finds the timers in order, at each of its removals. -/
def FitsCall (fuel : Nat) (heap : TimeHeap γ υ) : HeapCall γ υ → Prop
  | .op op => TracedHeap.Fits { heap, popped := [], streak := [] } op
  | .tick cur => heap.TickFits fuel cur

instance [DecidableEq γ] [DecidableEq υ] (fuel : Nat) (heap : TimeHeap γ υ) :
    ∀ call, Decidable (heap.FitsCall fuel call)
  | .op op => inferInstanceAs (Decidable (TracedHeap.Fits { heap, popped := [], streak := [] } op))
  | .tick cur => inferInstanceAs (Decidable (heap.TickFits fuel cur))

end TimeHeap

/-- The heap holds the timers of these alarms, and its first entry can be read. -/
structure Tracks (heap : TimeHeap γ υ) (alarms : List (HeapAlarm γ υ)) : Prop where
  minHeap : ∃ contents, MinHeap heap contents ∧ contents.Perm (alarms.map HeapAlarm.entry)
  nodes : ∀ alarm ∈ alarms, heap.timers alarm.timer = some alarm.node
  first : ∃ pointer, heap.entry 0 = .ok pointer

theorem tracks_init {cap : Nat} (positive : 0 < cap) (small : cap ≤ 2147483647) (block : Addr) :
    Tracks (TimeHeap.init cap block : TimeHeap γ υ) [] where
  minHeap := ⟨[], (reached_init cap small block).minHeap, .refl _⟩
  nodes := by simp
  first := by
    refine ⟨none, ?_⟩
    unfold TimeHeap.entry TimeHeap.loadCell
    have block_eq : (TimeHeap.init cap block : TimeHeap γ υ).blocks block =
        some (List.replicate cap (some none)) := Heap.write_self _ _ _
    rw [show (TimeHeap.init cap block : TimeHeap γ υ).array = block from rfl,
      Heap.load_some block_eq]
    simp [positive]

namespace Tracks

variable {heap : TimeHeap γ υ} {alarms : List (HeapAlarm γ υ)}

theorem perm (tracks : Tracks heap alarms) {alarms' : List (HeapAlarm γ υ)}
    (same : alarms'.Perm alarms) : Tracks heap alarms' where
  minHeap := by
    obtain ⟨contents, minHeap, listed⟩ := tracks.minHeap
    exact ⟨contents, minHeap, listed.trans (same.map _).symm⟩
  nodes alarm member := tracks.nodes alarm (same.mem_iff.mp member)
  first := tracks.first

theorem exec_add (tracks : Tracks heap alarms) {timer : Addr} {expire : Int} (cbFunc : Option γ)
    (userData : υ) (newArray : Addr) (unused : heap.timers timer = none)
    (fits : heap.AddFits expire) {fuel : Nat} (enough : 2 ≤ fuel) :
    ∃ heap', heap.call fuel (.add timer expire cbFunc userData newArray) = .ok heap' ∧
      Tracks heap' (⟨timer, expire, cbFunc, userData, false⟩ :: alarms) := by
  obtain ⟨contents, minHeap, listed⟩ := tracks.minHeap
  have others : ∀ entry ∈ contents, entry.timer ≠ timer := by
    intro entry member same
    obtain ⟨node, live, -⟩ := minHeap.holds.live.found member
    rw [same, unused] at live
    exact nomatch live
  have made := minHeap.withTimers (heap.timers.write timer { expire, cbFunc, userData })
    fun entry member => by rw [Heap.write_other _ _ (others entry member)]
  obtain ⟨heap', contents', done, minHeap', placed, timers⟩ := made.addTimer_spec ⟨timer, expire⟩
    (by simp) (by simpa using others) (fits.withTimers minHeap.holds made.holds)
    (Nat.le_of_succ_le enough) newArray
  refine ⟨heap', done, ⟨contents', minHeap', placed.trans (listed.cons _)⟩, ?_, ?_⟩
  · intro alarm member
    rw [timers]
    rcases List.mem_cons.mp member with rfl | member
    · exact Heap.write_self _ _ _
    · have inHeap : alarm.entry ∈ contents := listed.mem_iff.mpr (List.mem_map_of_mem member)
      exact (Heap.write_other _ _ (others _ inHeap)).trans (tracks.nodes alarm member)
  · cases contents' with
    | nil => exact absurd placed.length_eq (by simp)
    | cons root rest =>
        exact ⟨_, minHeap'.holds.entry_eq (rfl : (root :: rest)[0]? = some root)⟩

theorem exec_del (tracks : Tracks heap alarms) {timer : Ptr} (fuel : Nat)
    (live : timer.all (fun address => (heap.timers address).isSome) = true) :
    ∃ heap', heap.call fuel (.del timer) = .ok heap' ∧
      Tracks heap' (alarms.map fun alarm =>
        if timer = some alarm.timer then alarm.cancel else alarm) := by
  obtain ⟨contents, minHeap, listed⟩ := tracks.minHeap
  cases timer with
  | none => exact ⟨heap, rfl, by simpa using tracks⟩
  | some address =>
      obtain ⟨node, found⟩ := Option.isSome_iff_exists.mp live
      have kept := minHeap.withTimers
        (heap.timers.modify address fun node => { node with cbFunc := none })
        fun entry _ => Heap.modify_map heap.timers address
          (fun node => { node with cbFunc := none }) HeapTimer.expire (fun _ => rfl) entry.timer
      refine ⟨_, ?_, ⟨contents, kept, ?_⟩, ?_, tracks.first⟩
      · unfold TimeHeap.call TimeHeap.delTimer
        simp only [Heap.store_some found, ok_bind, pure_eq_ok]
      · have same : (alarms.map fun alarm =>
            if some address = some alarm.timer then alarm.cancel else alarm).map HeapAlarm.entry =
              alarms.map HeapAlarm.entry := by
          rw [List.map_map]
          refine List.map_congr_left fun alarm _ => ?_
          by_cases here : some address = some alarm.timer
          · simp only [Function.comp_apply, if_pos here]
            rfl
          · simp only [Function.comp_apply, if_neg here]
        rw [same]
        exact listed
      · intro alarm member
        obtain ⟨before, known, rfl⟩ := List.mem_map.mp member
        have stored := tracks.nodes before known
        by_cases here : some address = some before.timer
        · obtain rfl := Option.some.inj here
          rw [if_pos here]
          exact (Heap.modify_self _ _ _).trans (congrArg (Option.map _) stored)
        · rw [if_neg here]
          have apart : before.timer ≠ address := fun same => here (congrArg some same.symm)
          exact (Heap.modify_other _ _ apart).trans stored

/-- The root is one of the alarms that expire first. -/
theorem root {first : HeapEntry} {rest : List HeapEntry} (tracks : Tracks heap alarms)
    (minHeap : MinHeap heap (first :: rest))
    (listed : (first :: rest).Perm (alarms.map HeapAlarm.entry)) :
    ∃ alarm others, alarms.Perm (alarm :: others) ∧ alarm.entry = first ∧
      heap.timers first.timer = some alarm.node ∧
      (∀ other ∈ others, alarm.expire ≤ other.expire) ∧ rest.Perm (others.map HeapAlarm.entry) ∧
      ∀ other ∈ others, other.timer ≠ first.timer := by
  obtain ⟨alarm, member, rfl⟩ := List.mem_map.mp (listed.mem_iff.mp List.mem_cons_self)
  obtain ⟨left, right, rfl⟩ := List.append_of_mem member
  have split : (left ++ alarm :: right).Perm (alarm :: (left ++ right)) := List.perm_middle
  have remaining : rest.Perm ((left ++ right).map HeapAlarm.entry) :=
    List.Perm.cons_inv (listed.trans (split.map HeapAlarm.entry))
  have inRest : ∀ other ∈ left ++ right, other.entry ∈ rest := fun other within =>
    remaining.mem_iff.mpr (List.mem_map_of_mem within)
  refine ⟨alarm, left ++ right, split, rfl, tracks.nodes alarm member, ?_, remaining, ?_⟩
  · intro other within
    exact minHeap.head_le alarm.entry rfl other.entry (List.mem_cons_of_mem _ (inRest other within))
  · intro other within same
    apply (List.nodup_cons.mp minHeap.holds.live.distinct).1
    rw [show alarm.entry.timer = other.entry.timer from same.symm]
    exact List.mem_map_of_mem (inRest other within)

/-- A removal takes one of the alarms that expire first. -/
theorem popTimer {first : HeapEntry} {rest : List HeapEntry} {alarm : HeapAlarm γ υ}
    {others : List (HeapAlarm γ υ)} (tracks : Tracks heap (alarm :: others))
    (minHeap : MinHeap heap (first :: rest)) (remaining : rest.Perm (others.map HeapAlarm.entry))
    (apart : ∀ other ∈ others, other.timer ≠ first.timer) (fits : heap.PopFits) {fuel : Nat}
    (enough : 2 ≤ fuel) :
    ∃ heap', heap.popTimer fuel = .ok heap' ∧ Tracks heap' others := by
  obtain ⟨heap', contents', done, minHeap', kept, timers⟩ := minHeap.popTimer_spec fits enough
  refine ⟨heap', done, ⟨contents', minHeap', kept.trans remaining⟩, ?_, ?_⟩
  · intro other member
    rw [timers, Heap.erase_other _ (apart other member)]
    exact tracks.nodes other (List.mem_cons_of_mem _ member)
  · cases contents' with
    | cons root rest =>
        exact ⟨_, minHeap'.holds.entry_eq (rfl : (root :: rest)[0]? = some root)⟩
    | nil =>
        -- the pointer of the last timer stays in the array
        obtain rfl := kept.nil_eq
        obtain ⟨cells, block, capacity, points⟩ := minHeap.holds.block
        rw [MinHeap.popTimer_single minHeap.holds block] at done
        obtain rfl := Except.ok.inj done
        refine ⟨some first.timer, ?_⟩
        have room : 0 < cells.length := points.room
        unfold TimeHeap.entry TimeHeap.loadCell TimeHeap.uproot
        rw [Heap.load_some (Heap.write_self _ _ _)]
        simp [room]

/-! ## The loop of `tick` -/

theorem tickLoop_empty (tracks : Tracks heap []) (tmp : Ptr) (cur : Int) (fuel rounds : Nat) :
    heap.tickLoop fuel tmp cur rounds = .ok (heap, []) := by
  obtain ⟨contents, minHeap, listed⟩ := tracks.minHeap
  have curSize := minHeap.holds.curSize
  rw [listed.length_eq] at curSize
  have empty : heap.empty = true := decide_eq_true curSize
  unfold TimeHeap.tickLoop
  rw [if_pos empty]
  rfl

section Root

variable {first : HeapEntry} {rest : List HeapEntry} {node : HeapTimer γ υ} {cur : Int}

theorem not_empty (minHeap : MinHeap heap (first :: rest)) : ¬ heap.empty = true := by
  intro empty
  have noTimers : heap.curSize = 0 := of_decide_eq_true empty
  have curSize := minHeap.holds.curSize
  simp only [List.length_cons] at curSize
  omega

theorem tickLoop_waits (minHeap : MinHeap heap (first :: rest))
    (stored : heap.timers first.timer = some node) (waiting : node.expire > cur)
    (fuel rounds : Nat) :
    heap.tickLoop fuel (some first.timer) cur rounds = .ok (heap, []) := by
  rw [TimeHeap.tickLoop.eq_def, if_neg (not_empty minHeap), if_neg (by simp),
    Heap.load_some stored]
  simp only [ok_bind, if_pos waiting, pure_eq_ok]

theorem tickLoop_fires (minHeap : MinHeap heap (first :: rest))
    (stored : heap.timers first.timer = some node) (isDue : node.expire ≤ cur)
    (fuel rounds : Nat) :
    heap.tickLoop fuel (some first.timer) cur (rounds + 1) = (do
      let next ← heap.popTimer fuel
      let (last, later) ← next.tickLoop fuel (← next.entry 0) cur rounds
      return (last, (node.cbFunc.toList.map fun cbFunc => (cbFunc, node.userData)) ++ later)) := by
  have root : heap.entry 0 = .ok (some first.timer) :=
    minHeap.holds.entry_eq (rfl : (first :: rest)[0]? = some first)
  rw [TimeHeap.tickLoop, if_neg (not_empty minHeap), if_neg (by simp), Heap.load_some stored]
  simp only [ok_bind, if_neg (Int.not_lt.mpr isDue), root, Heap.load_some stored]

end Root

/-- The loop calls what is due, the earliest first, and leaves what is not. -/
theorem tickLoop_spec {tmp : Ptr} (tracks : Tracks heap alarms) (front : heap.entry 0 = .ok tmp)
    {cur : Int} {fuel rounds : Nat} (fits : TimeHeap.PopsFit fuel cur alarms.length heap)
    (enough : 2 ≤ fuel) (room : alarms.length ≤ rounds) :
    ∃ heap' order,
      heap.tickLoop fuel tmp cur rounds = .ok (heap', order.filterMap HeapAlarm.invocation) ∧
      order.Perm (due HeapAlarm.expire cur alarms) ∧ Ordered HeapAlarm.expire order ∧
      Tracks heap' (pending HeapAlarm.expire cur alarms) := by
  induction count : alarms.length generalizing heap alarms tmp rounds with
  | zero =>
      obtain rfl := List.eq_nil_of_length_eq_zero count
      exact ⟨heap, [], tracks.tickLoop_empty tmp cur fuel rounds, .refl _, .nil, tracks⟩
  | succ length ih =>
      obtain ⟨contents, minHeap, listed⟩ := tracks.minHeap
      have size := listed.length_eq
      rw [List.length_map, count] at size
      obtain ⟨first, rest, rfl⟩ := List.exists_cons_of_length_eq_add_one size
      obtain ⟨alarm, others, split, rfl, stored, least, remaining, apart⟩ :=
        tracks.root minHeap listed
      obtain rfl := Except.ok.inj (front.symm.trans
        (minHeap.holds.entry_eq (rfl : (alarm.entry :: rest)[0]? = some alarm.entry)))
      by_cases isDue : alarm.expire ≤ cur
      · obtain ⟨rounds, rfl⟩ : ∃ fewer, rounds = fewer + 1 := ⟨rounds - 1, by omega⟩
        have started : heap.curSize ≠ 0 := fun noTimers =>
          not_empty minHeap (decide_eq_true noTimers)
        have rootDue : heap.ExpiresBy 0 cur :=
          (minHeap.holds.expiresBy_iff (Nat.succ_pos rest.length)).mpr isDue
        rw [count] at fits
        obtain ⟨popFits, nextFits⟩ := fits.next started rootDue
        obtain ⟨next, popped, tracksNext⟩ :=
          (tracks.perm split.symm).popTimer minHeap remaining apart popFits enough
        have fewer : others.length = length := by
          have total := split.length_eq
          rw [List.length_cons] at total
          omega
        obtain ⟨pointer, nextFront⟩ := tracksNext.first
        have enoughRounds : others.length ≤ rounds := by omega
        obtain ⟨heap', order, looped, called, sorted, tracksLast⟩ :=
          ih tracksNext nextFront (fewer.symm ▸ nextFits next popped) enoughRounds fewer
        refine ⟨heap', alarm :: order, ?_, ?_, ?_, tracksLast.perm ?_⟩
        · rw [tickLoop_fires minHeap stored isDue, popped, ok_bind, nextFront, ok_bind, looped,
            alarm.node_calls]
          cases owed : alarm.invocation with
          | none => simp [owed]
          | some invocation => simp [owed]
        · have first : due HeapAlarm.expire cur (alarm :: others) =
              alarm :: due HeapAlarm.expire cur others :=
            List.filter_cons_of_pos (by simpa using isDue)
          exact (called.cons alarm).trans (first ▸ (split.filter _).symm)
        · refine List.pairwise_cons.mpr ⟨fun other member => least other ?_, sorted⟩
          exact List.mem_of_mem_filter (called.mem_iff.mp member)
        · have gone : pending HeapAlarm.expire cur (alarm :: others) =
              pending HeapAlarm.expire cur others :=
            List.filter_cons_of_neg (by simpa using isDue)
          exact gone ▸ split.filter _
      · have waiting : ∀ other ∈ alarms, cur < other.expire := by
          intro other member
          rcases List.mem_cons.mp (split.mem_iff.mp member) with rfl | member
          · exact Int.not_le.mp isDue
          · exact Int.lt_of_lt_of_le (Int.not_le.mp isDue) (least other member)
        have nothing : due HeapAlarm.expire cur alarms = [] :=
          List.filter_eq_nil_iff.mpr fun other member => by simpa using waiting other member
        have everything : pending HeapAlarm.expire cur alarms = alarms :=
          List.filter_eq_self.mpr fun other member => by simpa using waiting other member
        refine ⟨heap, [], tickLoop_waits minHeap stored (Int.not_le.mp isDue) fuel rounds, ?_, .nil,
          ?_⟩
        · rw [nothing]
        · rw [everything]
          exact tracks

theorem exec_tick (tracks : Tracks heap alarms) {cur : Int} {fuel : Nat}
    (fits : heap.TickFits fuel cur) (enough : alarms.length + 2 ≤ fuel) :
    ∃ heap' order,
      heap.tick fuel cur = .ok (heap', order.filterMap HeapAlarm.invocation) ∧
      order.Perm (due HeapAlarm.expire cur alarms) ∧ Ordered HeapAlarm.expire order ∧
      Tracks heap' (pending HeapAlarm.expire cur alarms) := by
  obtain ⟨tmp, front⟩ := tracks.first
  have size : heap.curSize.toNat = alarms.length := by
    obtain ⟨contents, minHeap, listed⟩ := tracks.minHeap
    rw [minHeap.holds.curSize, listed.length_eq, List.length_map]
    rfl
  unfold TimeHeap.TickFits at fits
  rw [size] at fits
  unfold TimeHeap.tick
  rw [front, ok_bind]
  exact tracks.tickLoop_spec front fits (by omega) (by omega)

theorem exec_pop (tracks : Tracks heap alarms) (fits : heap.PopFits) {fuel : Nat}
    (enough : 2 ≤ fuel) :
    ∃ heap' alarms', heap.call fuel .pop = .ok heap' ∧
      AlarmStep alarms (.op .pop : HeapCall γ υ) alarms' ∧ Tracks heap' alarms' := by
  obtain ⟨contents, minHeap, listed⟩ := tracks.minHeap
  cases contents with
  | nil =>
      obtain rfl := List.map_eq_nil_iff.mp listed.nil_eq.symm
      exact ⟨heap, [], minHeap.popTimer_nil fuel, .popNothing, tracks⟩
  | cons first rest =>
      obtain ⟨alarm, others, split, rfl, -, least, remaining, apart⟩ := tracks.root minHeap listed
      obtain ⟨heap', popped, tracks'⟩ :=
        (tracks.perm split.symm).popTimer minHeap remaining apart fits enough
      exact ⟨heap', others, popped, .pop split least, tracks'⟩

theorem exec (tracks : Tracks heap alarms) {call : HeapCall γ υ} {fuel : Nat}
    (fits : heap.FitsCall fuel call) (enough : alarms.length + 2 ≤ fuel) :
    ∃ heap' alarms', heap.exec fuel call = .ok heap' ∧ AlarmStep alarms call alarms' ∧
      Tracks heap' alarms' := by
  have two : 2 ≤ fuel := by omega
  cases call with
  | op op =>
      cases op with
      | add timer expire cbFunc userData newArray =>
          obtain ⟨unused, addFits⟩ := fits
          obtain ⟨heap', done, tracks'⟩ :=
            tracks.exec_add cbFunc userData newArray unused addFits two
          exact ⟨heap', _, done, .add alarms timer expire cbFunc userData newArray, tracks'⟩
      | del timer =>
          obtain ⟨heap', done, tracks'⟩ := tracks.exec_del fuel fits
          exact ⟨heap', _, done, .del alarms timer, tracks'⟩
      | pop => exact tracks.exec_pop fits two
  | tick cur =>
      obtain ⟨heap', order, ticked, -, -, tracks'⟩ := tracks.exec_tick fits enough
      refine ⟨heap', _, ?_, .tick alarms cur, tracks'⟩
      simp only [TimeHeap.exec, ticked, ok_bind, pure_eq_ok]

end Tracks

/-- `tick` over whole runs. When every call, and every removal that a tick makes, finds the
timers in order, the heap holds the alarms that are set, in every state that is reached. A tick
at `cur` whose removals fit calls back those that are due and not cancelled, the earliest
first, and leaves the others. -/
theorem timeHeap_tick_fires (cap : Nat) (positive : 0 < cap) (small : cap ≤ 2147483647)
    (block : Addr) (calls : List (HeapCall γ υ)) (fuel : Nat) (enough : calls.length + 2 ≤ fuel)
    (fits : StepsMeet (TimeHeap.FitsCall fuel) (TimeHeap.exec fuel) (TimeHeap.init cap block)
      calls) :
    ∃ heap alarms, runOps (TimeHeap.exec fuel) (TimeHeap.init cap block) calls = .ok heap ∧
      RunsTo AlarmStep [] calls alarms ∧ Tracks heap alarms ∧
      ∀ cur, heap.TickFits fuel cur → ∃ heap' order,
        heap.tick fuel cur = .ok (heap', order.filterMap HeapAlarm.invocation) ∧
        order.Perm (due HeapAlarm.expire cur alarms) ∧ Ordered HeapAlarm.expire order ∧
        Tracks heap' (pending HeapAlarm.expire cur alarms) := by
  have grows : ∀ (alarms : List (HeapAlarm γ υ)) call alarms', AlarmStep alarms call alarms' →
      alarms'.length ≤ alarms.length + 1 := fun _ _ _ step => step.length_le
  have simulates : ∀ (heap : TimeHeap γ υ) (alarms : List (HeapAlarm γ υ)) call,
      Tracks heap alarms → heap.FitsCall fuel call → alarms.length ≤ calls.length →
      ∃ heap' alarms', heap.exec fuel call = .ok heap' ∧ AlarmStep alarms call alarms' ∧
        Tracks heap' alarms' := fun _ _ _ tracks fits bounded => tracks.exec fits (by omega)
  obtain ⟨heap, alarms, done, run, tracks, bounded⟩ :=
    runOps_follows grows simulates (tracks_init positive small block) (by simp) fits
  exact ⟨heap, alarms, done, run, tracks, fun cur fits => tracks.exec_tick fits (by omega)⟩

/-- Additions, a removal, a tick that calls back one timer, and one that finds a second timer
due and a third one cancelled. -/
def sampleTicks : List (HeapCall Unit Nat) :=
  [.op (.add 1 5 (some ()) 1 0), .op (.add 2 3 (some ()) 2 0), .op (.add 3 8 (some ()) 3 0),
    .op (.add 4 9 (some ()) 4 0), .op (.del (some 3)), .op (.add 5 8 (some ()) 5 0), .op .pop,
    .tick 5, .tick 8, .op (.add 6 10 none 6 0)]

theorem timeHeap_tick_fires_sampleTicks :
    ∃ heap alarms, runOps (TimeHeap.exec 12) (TimeHeap.init 8 0) sampleTicks = .ok heap ∧
      RunsTo AlarmStep [] sampleTicks alarms ∧ Tracks heap alarms ∧
      ∀ cur, heap.TickFits 12 cur → ∃ heap' order,
        heap.tick 12 cur = .ok (heap', order.filterMap HeapAlarm.invocation) ∧
        order.Perm (due HeapAlarm.expire cur alarms) ∧ Ordered HeapAlarm.expire order ∧
        Tracks heap' (pending HeapAlarm.expire cur alarms) :=
  timeHeap_tick_fires 8 (by decide) (by decide) 0 sampleTicks 12 (by decide) (by decide +kernel)

/-- Six additions. The last timer is put above the fourth one when the first is removed. -/
def hidingCalls : List (HeapCall Unit Nat) :=
  [.op (.add 1 1 (some ()) 1 0), .op (.add 2 5 (some ()) 2 0), .op (.add 3 10 (some ()) 3 0),
    .op (.add 4 6 (some ()) 4 0), .op (.add 5 20 (some ()) 5 0), .op (.add 6 30 (some ()) 6 0)]

def hidingAlarms : List (HeapAlarm Unit Nat) :=
  [⟨6, 30, some (), 6, false⟩, ⟨5, 20, some (), 5, false⟩, ⟨4, 6, some (), 4, false⟩,
    ⟨3, 10, some (), 3, false⟩, ⟨2, 5, some (), 2, false⟩, ⟨1, 1, some (), 1, false⟩]

theorem hidingCalls_run :
    (runOps (TimeHeap.exec 8) (TimeHeap.init 8 0) hidingCalls).map
        (fun heap => (heap.tick 8 6).map Prod.snd) = .ok (.ok [((), 1), ((), 2)]) := by
  decide +kernel

theorem timeHeap_tick_misses :
    ∃ heap, runOps (TimeHeap.exec 8) (TimeHeap.init 8 0) hidingCalls = .ok heap ∧
      RunsTo AlarmStep [] hidingCalls hidingAlarms ∧
      ¬ ∃ (heap' : TimeHeap Unit Nat) (order : List (HeapAlarm Unit Nat)),
        heap.tick 8 6 = .ok (heap', order.filterMap HeapAlarm.invocation) ∧
          order.Perm (due HeapAlarm.expire 6 hidingAlarms) := by
  have reads := hidingCalls_run
  cases done : runOps (TimeHeap.exec 8) (TimeHeap.init 8 0) hidingCalls with
  | error fault => rw [done] at reads; exact nomatch reads
  | ok heap =>
      rw [done] at reads
      refine ⟨heap, rfl, ?_, ?_⟩
      · exact .cons (.add ..) (.cons (.add ..) (.cons (.add ..) (.cons (.add ..)
          (.cons (.add ..) (.cons (.add ..) (.nil _))))))
      · rintro ⟨heap', order, ticked, all⟩
        have invoked : order.filterMap HeapAlarm.invocation = [((), 1), ((), 2)] := by
          have result : (heap.tick 8 6).map Prod.snd = .ok [((), 1), ((), 2)] :=
            Except.ok.inj reads
          rw [ticked] at result
          exact Except.ok.inj result
        -- the fourth timer is due as well
        have owed := (all.filterMap HeapAlarm.invocation).length_eq
        rw [invoked] at owed
        exact absurd owed (by decide)

end HPLinuxServer.Timer
