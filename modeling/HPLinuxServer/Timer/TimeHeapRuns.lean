import HPLinuxServer.Refinement.Runs
import HPLinuxServer.Timer.TimeHeapProperties

/-!
# Runs of the time heap

Sequences of `add_timer`, `del_timer` and `pop_timer` from an empty heap. As long
as each of them finds the timers it compares in the right order, the array is a
min-heap of the timers that were added and not yet popped.
-/

set_option autoImplicit false

namespace HPLinuxServer.Timer

open Memory Refinement Scheduling

/-- A call on the heap. `timer` and `newArray` are the addresses that `new` returns
for the timer and for a larger array. -/
inductive HeapOp (γ υ : Type) where
  | add (timer : Addr) (expire : Int) (cbFunc : Option γ) (userData : υ) (newArray : Addr)
  | del (timer : Ptr)
  | pop
  deriving Repr

variable {γ υ : Type}

namespace HeapOp

/-- The timer that a call adds. -/
def added : HeapOp γ υ → Option HeapEntry
  | .add timer expire _ _ _ => some ⟨timer, expire⟩
  | .del _ => none
  | .pop => none

end HeapOp

/-- A heap with the timers popped so far and, of these, the ones popped since the
last addition. -/
structure TracedHeap (γ υ : Type) where
  heap : TimeHeap γ υ
  popped : List HeapEntry
  streak : List HeapEntry

namespace TimeHeap

/-- The timer that `top` returns. -/
def peek (heap : TimeHeap γ υ) : Except Fault (Option HeapEntry) := do
  match ← heap.top with
  | none => return none
  | some timer => return some ⟨timer, (← heap.timers.load (some timer)).expire⟩

instance (heap : TimeHeap γ υ) (index bound : Int) : Decidable (heap.ExpiresBy index bound) :=
  have (read : Except Fault Int) : Decidable (match read with
      | .ok expire => expire ≤ bound
      | .error _ => False) :=
    match read with
    | .ok _ => inferInstanceAs (Decidable (_ ≤ _))
    | .error _ => isFalse id
  this (heap.expireAt index)

instance (heap : TimeHeap γ υ) (index bound : Int) : Decidable (heap.ExpiresFrom index bound) :=
  have (read : Except Fault Int) : Decidable (match read with
      | .ok expire => bound ≤ expire
      | .error _ => False) :=
    match read with
    | .ok _ => inferInstanceAs (Decidable (_ ≤ _))
    | .error _ => isFalse id
  this (heap.expireAt index)

instance (heap : TimeHeap γ υ) (expire : Int) : Decidable (heap.AddFits expire) :=
  inferInstanceAs (Decidable (_ ∧ _))

instance (heap : TimeHeap γ υ) (size child last : Int) :
    Decidable (heap.BelowFits size child last) :=
  have : Decidable (∃ least, heap.expireAt child = .ok least ∧
      heap.ExpiresFrom (2 * child + 1) least) :=
    match read : heap.expireAt child with
    | .ok least => decidable_of_iff (heap.ExpiresFrom (2 * child + 1) least) (by simp)
    | .error _ => isFalse (by simp)
  inferInstanceAs (Decidable (_ ∧ _))

instance (heap : TimeHeap γ υ) : Decidable heap.PopFits :=
  have (last child : Except Fault Int) : Decidable (match last, child with
      | .ok last, .ok child =>
          heap.ExpiresFrom child last ∨
            heap.entry (2 * child + 1) ≠ heap.entry 0 ∧
              heap.BelowFits (heap.curSize - 1) child last
      | _, _ => False) :=
    match last, child with
    | .ok _, .ok _ => inferInstanceAs (Decidable (_ ∨ _))
    | .error _, _ => isFalse id
    | .ok _, .error _ => isFalse id
  @instDecidableOr _ _ _ (this _ _)

end TimeHeap

namespace TracedHeap

def init (cap : Nat) (block : Addr) : TracedHeap γ υ :=
  { heap := TimeHeap.init cap block, popped := [], streak := [] }

/-- One call, where a loop may take up to `fuel` rounds. -/
def exec (fuel : Nat) (traced : TracedHeap γ υ) : HeapOp γ υ → Except Fault (TracedHeap γ υ)
  | .add timer expire cbFunc userData newArray => do
      let heap := { traced.heap with
        timers := traced.heap.timers.write timer { expire, cbFunc, userData } }
      return { traced with heap := ← heap.addTimer fuel (some timer) newArray, streak := [] }
  | .del timer => do
      return { traced with heap := ← traced.heap.delTimer timer }
  | .pop => do
      let entry ← traced.heap.peek
      return { heap := ← traced.heap.popTimer fuel
               popped := traced.popped ++ entry.toList
               streak := traced.streak ++ entry.toList }

/-- A call that finds the timers in order. The address of a new timer is not in
use, and only timers that exist are cancelled. -/
def Fits (traced : TracedHeap γ υ) : HeapOp γ υ → Prop
  | .add timer expire _ _ _ => traced.heap.timers timer = none ∧ traced.heap.AddFits expire
  | .del timer => timer.all (fun address => (traced.heap.timers address).isSome) = true
  | .pop => traced.heap.PopFits

instance [DecidableEq γ] [DecidableEq υ] (traced : TracedHeap γ υ) :
    ∀ op, Decidable (traced.Fits op)
  | .add _ _ _ _ _ => inferInstanceAs (Decidable (_ ∧ _))
  | .del _ => inferInstanceAs (Decidable (_ = _))
  | .pop => inferInstanceAs (Decidable (TimeHeap.PopFits _))

end TracedHeap

/-- What holds after the calls that added `added`: the array is a heap, every timer
is in it or was popped, and the timers of the streak came out in order. -/
structure Reached (added : List HeapEntry) (traced : TracedHeap γ υ)
    (contents : List HeapEntry) : Prop where
  minHeap : MinHeap traced.heap contents
  accounted : (traced.popped ++ contents).Perm added
  sorted : traced.streak.Pairwise fun earlier later => earlier.expire ≤ later.expire
  ahead : ∀ entry ∈ traced.streak, ∀ other ∈ contents, entry.expire ≤ other.expire

theorem reached_init (cap : Nat) (small : cap ≤ 2147483647) (block : Addr) :
    Reached [] (TracedHeap.init cap block : TracedHeap γ υ) [] where
  minHeap :=
    { holds :=
        { block := ⟨_, Heap.write_self _ _ _, by simp [TracedHeap.init, TimeHeap.init],
            Nat.zero_le _, by simp⟩
          curSize := rfl
          small := Int.ofNat_le.mpr small
          live := ⟨by simp, by simp⟩ }
      ordered := fun _ _ inside => absurd inside (Nat.not_lt_zero _) }
  accounted := List.Perm.refl _
  sorted := List.Pairwise.nil
  ahead := by simp [TracedHeap.init]

namespace MinHeap

variable {heap : TimeHeap γ υ} {contents : List HeapEntry}

theorem top_eq (minHeap : MinHeap heap contents) :
    heap.top = .ok (contents.head?.map HeapEntry.timer) := by
  unfold TimeHeap.top
  have curSize := minHeap.holds.curSize
  cases contents with
  | nil =>
      have empty : heap.empty = true := decide_eq_true curSize
      rw [if_pos empty]
      rfl
  | cons first rest =>
      have started : ¬ heap.empty = true := by
        intro empty
        have noTimers : heap.curSize = 0 := of_decide_eq_true empty
        simp only [List.length_cons] at curSize
        omega
      rw [if_neg started]
      exact minHeap.holds.entry_eq (rfl : (first :: rest)[0]? = some first)

theorem peek_eq (minHeap : MinHeap heap contents) : heap.peek = .ok contents.head? := by
  unfold TimeHeap.peek
  rw [minHeap.top_eq]
  cases contents with
  | nil => rfl
  | cons first rest =>
      obtain ⟨node, live, expire⟩ := minHeap.holds.live.found (List.mem_cons_self (a := first))
      simp only [ok_bind, List.head?_cons, Option.map_some, Heap.load_some live, expire,
        pure_eq_ok]

theorem head_le (minHeap : MinHeap heap contents) :
    ∀ least ∈ contents.head?, ∀ other ∈ contents, least.expire ≤ other.expire := by
  intro least isHead other member
  obtain ⟨i, inside, rfl⟩ := List.mem_iff_getElem.mp member
  have root : contents[0]? = some least := by rw [← List.head?_eq_getElem?]; exact isHead
  rw [← expireOf_eq root, ← expireOf_eq (List.getElem?_eq_getElem inside)]
  exact minHeap.ordered.root_le inside

theorem withTimers (minHeap : MinHeap heap contents) (timers : Heap (HeapTimer γ υ))
    (kept : ∀ entry ∈ contents, (timers entry.timer).map HeapTimer.expire =
      (heap.timers entry.timer).map HeapTimer.expire) :
    MinHeap { heap with timers } contents where
  holds :=
    { minHeap.holds with
      live := ⟨fun entry member =>
        (kept entry member).trans (minHeap.holds.live.stored entry member),
        minHeap.holds.live.distinct⟩ }
  ordered := minHeap.ordered

end MinHeap

/-- `add_timer` reads no timer that its condition does not mention. -/
theorem TimeHeap.AddFits.withTimers {heap : TimeHeap γ υ} {contents : List HeapEntry}
    {timers : Heap (HeapTimer γ υ)} {expire : Int} (fits : heap.AddFits expire)
    (holds : Holds heap contents) (holds' : Holds { heap with timers } contents) :
    TimeHeap.AddFits { heap with timers } expire := by
  have curSize := holds.curSize
  obtain ⟨room, few | ⟨compared, parent⟩⟩ := fits
  · exact ⟨room, .inl few⟩
  · by_cases few : heap.curSize ≤ 1
    · exact ⟨room, .inl few⟩
    · have middle : heap.curSize.tdiv 2 = ((contents.length / 2 : Nat) : Int) := by
        rw [curSize, Int.tdiv_eq_ediv_of_nonneg (by omega)]
        rfl
      have above : (heap.curSize - 1).tdiv 2 = (((contents.length - 1) / 2 : Nat) : Int) := by
        rw [curSize, Int.tdiv_eq_ediv_of_nonneg (by omega)]
        omega
      refine ⟨room, .inr ⟨?_, ?_⟩⟩
      · change TimeHeap.ExpiresBy { heap with timers } (heap.curSize.tdiv 2) expire
        rw [middle] at compared ⊢
        exact (holds'.expiresBy_iff (by omega)).mpr ((holds.expiresBy_iff (by omega)).mp compared)
      · change TimeHeap.ExpiresBy { heap with timers } ((heap.curSize - 1).tdiv 2) expire
        rw [above] at parent ⊢
        exact (holds'.expiresBy_iff (by omega)).mpr ((holds.expiresBy_iff (by omega)).mp parent)

namespace Reached

variable {added : List HeapEntry} {traced : TracedHeap γ υ} {contents : List HeapEntry}

theorem exec_add (reached : Reached added traced contents) {timer : Addr} {expire : Int}
    (cbFunc : Option γ) (userData : υ) (newArray : Addr)
    (unused : traced.heap.timers timer = none) (fits : traced.heap.AddFits expire) {fuel : Nat}
    (enough : 2 ≤ fuel) :
    ∃ traced' contents', traced.exec fuel (.add timer expire cbFunc userData newArray) =
        .ok traced' ∧
      Reached (added ++ [⟨timer, expire⟩]) traced' contents' := by
  have others : ∀ entry ∈ contents, entry.timer ≠ timer := by
    intro entry member same
    obtain ⟨node, live, -⟩ := reached.minHeap.holds.live.found member
    rw [same, unused] at live
    exact nomatch live
  have made := reached.minHeap.withTimers
    (traced.heap.timers.write timer { expire, cbFunc, userData })
    fun entry member => by rw [Heap.write_other _ _ (others entry member)]
  obtain ⟨heap', contents', done, minHeap', perm, -⟩ := made.addTimer_spec ⟨timer, expire⟩
    (by simp) (by simpa using others) (fits.withTimers reached.minHeap.holds made.holds)
    (Nat.le_of_succ_le enough) newArray
  refine ⟨{ traced with heap := heap', streak := [] }, contents', ?_, ⟨minHeap', ?_, ?_, ?_⟩⟩
  · unfold TracedHeap.exec
    simp only [done, ok_bind, pure_eq_ok]
  · apply (perm.append_left traced.popped).trans
    apply List.perm_middle.trans
    exact (reached.accounted.cons _).trans (List.perm_append_singleton _ _).symm
  · exact List.Pairwise.nil
  · simp

theorem exec_del (reached : Reached added traced contents) {timer : Ptr}
    (live : timer.all (fun address => (traced.heap.timers address).isSome) = true) (fuel : Nat) :
    ∃ traced' contents', traced.exec fuel (.del timer) = .ok traced' ∧
      Reached added traced' contents' := by
  cases timer with
  | none => exact ⟨traced, contents, rfl, reached⟩
  | some address =>
      obtain ⟨node, found⟩ := Option.isSome_iff_exists.mp live
      have kept := reached.minHeap.withTimers
        (traced.heap.timers.modify address fun node => { node with cbFunc := none })
        fun entry _ => Heap.modify_map traced.heap.timers address
          (fun node => { node with cbFunc := none }) HeapTimer.expire (fun _ => rfl) entry.timer
      refine ⟨{ traced with heap := _ }, contents, ?_, { reached with minHeap := kept }⟩
      unfold TracedHeap.exec TimeHeap.delTimer
      simp only [Heap.store_some found, ok_bind, pure_eq_ok]

theorem exec_pop (reached : Reached added traced contents) (fits : traced.heap.PopFits)
    {fuel : Nat} (enough : 2 ≤ fuel) :
    ∃ traced' contents', traced.exec fuel .pop = .ok traced' ∧
      Reached added traced' contents' := by
  unfold TracedHeap.exec
  simp only [reached.minHeap.peek_eq, ok_bind]
  cases contents with
  | nil =>
      rw [reached.minHeap.popTimer_nil]
      refine ⟨_, [], rfl, ?_⟩
      simpa using reached
  | cons first rest =>
      obtain ⟨heap', contents', done, minHeap', perm, -⟩ :=
        reached.minHeap.popTimer_spec fits enough
      rw [done]
      refine ⟨_, contents', rfl, ⟨minHeap', ?_, ?_, ?_⟩⟩
      · apply (perm.append_left _).trans
        simpa using reached.accounted
      · apply List.pairwise_append.mpr
        refine ⟨reached.sorted, by simp, ?_⟩
        intro entry member last isFirst
        obtain rfl : last = first := by simpa using isFirst
        exact reached.ahead entry member last List.mem_cons_self
      · intro entry member other within
        have before : other ∈ rest := perm.mem_iff.mp within
        rcases List.mem_append.mp member with earlier | isFirst
        · exact reached.ahead entry earlier other (List.mem_cons_of_mem _ before)
        · obtain rfl : entry = first := by simpa using isFirst
          exact reached.minHeap.head_le entry rfl other (List.mem_cons_of_mem _ before)

theorem exec (reached : Reached added traced contents) {op : HeapOp γ υ} (fits : traced.Fits op)
    {fuel : Nat} (enough : 2 ≤ fuel) :
    ∃ traced' contents', traced.exec fuel op = .ok traced' ∧
      Reached (added ++ op.added.toList) traced' contents' := by
  cases op with
  | add timer expire cbFunc userData newArray =>
      exact reached.exec_add cbFunc userData newArray fits.1 fits.2 enough
  | del timer => simpa [HeapOp.added] using reached.exec_del fits fuel
  | pop => simpa [HeapOp.added] using reached.exec_pop fits enough

end Reached

/-- In a run of fitting calls from an empty heap no call fails, and at its end, so
after every call, the array is a min-heap of the timers added and not yet popped.
Its root, which `top` returns, expires first, and the timers popped since the last
addition came out in order. -/
theorem timeHeap_minHeap (cap : Nat) (small : cap ≤ 2147483647) (block : Addr)
    (ops : List (HeapOp γ υ)) (fuel : Nat) (enough : 2 ≤ fuel)
    (fits : StepsMeet TracedHeap.Fits (TracedHeap.exec fuel) (TracedHeap.init cap block) ops) :
    ∃ final contents,
      runOps (TracedHeap.exec fuel) (TracedHeap.init cap block) ops = .ok final ∧
      MinHeap final.heap contents ∧
      (final.popped ++ contents).Perm (ops.filterMap HeapOp.added) ∧
      final.heap.top = .ok (contents.head?.map HeapEntry.timer) ∧
      (∀ least ∈ contents.head?, ∀ other ∈ contents, least.expire ≤ other.expire) ∧
      final.streak.Pairwise fun earlier later => earlier.expire ≤ later.expire := by
  have start : ∃ contents, Reached (([] : List (HeapOp γ υ)).filterMap HeapOp.added)
      (TracedHeap.init cap block : TracedHeap γ υ) contents := ⟨[], reached_init cap small block⟩
  obtain ⟨final, done, contents, reached⟩ := runOps_keeps
    (fun done traced => ∃ contents, Reached (done.filterMap HeapOp.added) traced contents)
    (fun done traced op ⟨contents, reached⟩ fits => by
      obtain ⟨traced', contents', executed, reached'⟩ := reached.exec fits enough
      refine ⟨traced', executed, contents', ?_⟩
      rw [List.filterMap_append]
      cases op <;> exact reached')
    start fits
  exact ⟨final, contents, done, reached.minHeap, reached.accounted, reached.minHeap.top_eq,
    reached.minHeap.head_le, reached.sorted⟩

/-- Additions that fit, among them one before the only timer; a cancelled timer;
removals with the last timer at the root and right below it. -/
def sampleHeapCalls : List (HeapOp Unit Unit) :=
  [.add 1 5 none () 0, .add 2 3 none () 0, .add 3 8 none () 0, .add 4 9 none () 0, .del (some 3),
    .add 5 8 none () 0, .pop, .pop, .pop, .pop, .add 2 1 none () 0]

theorem timeHeap_minHeap_sampleHeapCalls :
    ∃ final contents,
      runOps (TracedHeap.exec 2) (TracedHeap.init 8 0) sampleHeapCalls = .ok final ∧
      MinHeap final.heap contents ∧
      (final.popped ++ contents).Perm (sampleHeapCalls.filterMap HeapOp.added) ∧
      final.heap.top = .ok (contents.head?.map HeapEntry.timer) ∧
      (∀ least ∈ contents.head?, ∀ other ∈ contents, least.expire ≤ other.expire) ∧
      final.streak.Pairwise fun earlier later => earlier.expire ≤ later.expire :=
  timeHeap_minHeap 8 (by decide) 0 sampleHeapCalls 2 (by decide) (by decide +kernel)

/-- Seven additions. The last timer is compared with position 3, but its parent is
position 2. -/
def disorderedCalls : List (HeapOp Unit Unit) :=
  [.add 1 1 none () 0, .add 2 2 none () 0, .add 3 10 none () 0, .add 4 3 none () 0,
    .add 5 11 none () 0, .add 6 12 none () 0, .add 7 4 none () 0]

theorem disorderedCalls_run :
    (runOps (TracedHeap.exec 2) (TracedHeap.init 8 0) disorderedCalls).map
        (fun final => (final.heap.curSize, final.heap.expireAt 2, final.heap.expireAt 6)) =
      .ok (7, .ok 10, .ok 4) := by decide +kernel

theorem timeHeap_disorder :
    ∃ final, runOps (TracedHeap.exec 2) (TracedHeap.init 8 0) disorderedCalls = .ok final ∧
      ∀ contents, ¬ MinHeap final.heap contents := by
  have reads := disorderedCalls_run
  cases done : runOps (TracedHeap.exec 2) (TracedHeap.init 8 0) disorderedCalls with
  | error fault => rw [done] at reads; exact nomatch reads
  | ok final =>
      rw [done] at reads
      obtain ⟨size, readParent, readChild⟩ : final.heap.curSize = 7 ∧
          final.heap.expireAt 2 = .ok 10 ∧ final.heap.expireAt 6 = .ok 4 := by
        simpa [Except.map] using reads
      refine ⟨final, rfl, ?_⟩
      intro contents minHeap
      have curSize := minHeap.holds.curSize
      have parent := List.getElem?_eq_getElem (by omega : 2 < contents.length)
      have child := List.getElem?_eq_getElem (by omega : 6 < contents.length)
      have order := minHeap.ordered 6 (by decide) (by omega)
      rw [expireOf_eq parent, expireOf_eq child] at order
      have expireParent : contents[2].expire = 10 :=
        Except.ok.inj ((minHeap.holds.expireAt_eq parent).symm.trans readParent)
      have expireChild : contents[6].expire = 4 :=
        Except.ok.inj ((minHeap.holds.expireAt_eq child).symm.trans readChild)
      omega

end HPLinuxServer.Timer
