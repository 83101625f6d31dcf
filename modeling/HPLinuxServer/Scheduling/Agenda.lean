import Mathlib.Data.List.Nodup
import Mathlib.Data.List.Perm.Basic
import Mathlib.Order.Lattice

/-!
# Agendas

A queue of entries served by deadline, over any linear order of deadlines. An
entry goes behind every entry that is due no later than it, so entries with one
deadline are served in the order of their insertion.
-/

set_option autoImplicit false

namespace HPLinuxServer.Scheduling

variable {α κ : Type} [LinearOrder κ] (deadline : α → κ)

/-- Insert behind every entry that is due no later. -/
def enqueue (entry : α) (agenda : List α) : List α :=
  agenda.filter (fun other => decide (deadline other ≤ deadline entry)) ++
    entry :: agenda.filter (fun other => decide (deadline entry < deadline other))

/-- The entries that are not due at `now`, in their order. -/
def pending (now : κ) (agenda : List α) : List α :=
  agenda.filter fun entry => decide (now < deadline entry)

/-- The entries that are due at `now`, in their order. -/
def due (now : κ) (agenda : List α) : List α :=
  agenda.filter fun entry => decide (deadline entry ≤ now)

/-- Deadlines do not decrease along the agenda. -/
def Ordered (agenda : List α) : Prop :=
  agenda.Pairwise fun earlier later => deadline earlier ≤ deadline later

variable {deadline}

theorem enqueue_perm (entry : α) (agenda : List α) :
    (enqueue deadline entry agenda).Perm (entry :: agenda) := by
  have complement : (fun other => decide (deadline entry < deadline other)) =
      fun other => !decide (deadline other ≤ deadline entry) := by
    funext other
    by_cases later : deadline entry < deadline other
    · simp [later, not_le_of_gt later]
    · simp [later, le_of_not_gt later]
  unfold enqueue
  refine List.perm_middle.trans (List.Perm.cons _ ?_)
  rw [complement]
  exact List.filter_append_perm _ _

@[simp] theorem mem_enqueue {entry other : α} {agenda : List α} :
    other ∈ enqueue deadline entry agenda ↔ other = entry ∨ other ∈ agenda := by
  rw [(enqueue_perm entry agenda).mem_iff, List.mem_cons]

theorem Ordered.enqueue {agenda : List α} (ordered : Ordered deadline agenda) (entry : α) :
    Ordered deadline (enqueue deadline entry agenda) := by
  refine List.pairwise_append.mpr ⟨ordered.filter _, List.pairwise_cons.mpr ⟨?_, ordered.filter _⟩, ?_⟩
  · intro later member
    exact le_of_lt (by simpa using (List.mem_filter.mp member).2)
  · intro earlier member later member'
    have before : deadline earlier ≤ deadline entry := by
      simpa using (List.mem_filter.mp member).2
    rcases List.mem_cons.mp member' with rfl | member'
    · exact before
    · exact le_trans before (le_of_lt (by simpa using (List.mem_filter.mp member').2))

/-- The first entry stays first if the new one is due no earlier. -/
theorem head?_enqueue {entry first : α} {agenda : List α} (head : agenda.head? = some first)
    (before : deadline first ≤ deadline entry) :
    (Scheduling.enqueue deadline entry agenda).head? = some first := by
  cases agenda with
  | nil => cases head
  | cons other rest =>
      obtain rfl : other = first := Option.some.inj head
      unfold Scheduling.enqueue
      rw [List.filter_cons_of_pos (by simpa using before)]
      rfl

theorem enqueue_eq_of_split {entry : α} {left right : List α}
    (before : ∀ other ∈ left, deadline other ≤ deadline entry)
    (behind : ∀ other ∈ right, deadline entry < deadline other) :
    Scheduling.enqueue deadline entry (left ++ right) = left ++ entry :: right := by
  have leftBefore : left.filter (fun other => decide (deadline other ≤ deadline entry)) = left :=
    List.filter_eq_self.mpr fun other member => by simpa using before other member
  have rightBefore : right.filter (fun other => decide (deadline other ≤ deadline entry)) = [] :=
    List.filter_eq_nil_iff.mpr fun other member => by simpa using behind other member
  have leftBehind : left.filter (fun other => decide (deadline entry < deadline other)) = [] :=
    List.filter_eq_nil_iff.mpr fun other member => by simpa using before other member
  have rightBehind :
      right.filter (fun other => decide (deadline entry < deadline other)) = right :=
    List.filter_eq_self.mpr fun other member => by simpa using behind other member
  simp only [Scheduling.enqueue, List.filter_append, leftBefore, rightBefore, leftBehind,
    rightBehind, List.append_nil, List.nil_append]

/-- In an ordered agenda an insertion cuts once: everything due no later stays in
front, everything due later stays behind. -/
theorem Ordered.enqueue_cut {agenda : List α} (ordered : Ordered deadline agenda) (entry : α) :
    ∃ left right, agenda = left ++ right ∧
      Scheduling.enqueue deadline entry agenda = left ++ entry :: right ∧
      (∀ other ∈ left, deadline other ≤ deadline entry) ∧
      ∀ other ∈ right, deadline entry < deadline other := by
  suffices cut : ∃ left right, agenda = left ++ right ∧
      (∀ other ∈ left, deadline other ≤ deadline entry) ∧
      ∀ other ∈ right, deadline entry < deadline other by
    obtain ⟨left, right, rfl, before, behind⟩ := cut
    exact ⟨left, right, rfl, enqueue_eq_of_split before behind, before, behind⟩
  induction agenda with
  | nil => exact ⟨[], [], rfl, by simp, by simp⟩
  | cons first rest ih =>
      obtain ⟨firstLeast, restOrdered⟩ := List.pairwise_cons.mp ordered
      by_cases before : deadline first ≤ deadline entry
      · obtain ⟨left, right, rfl, leftBefore, rightBehind⟩ := ih restOrdered
        refine ⟨first :: left, right, rfl, ?_, rightBehind⟩
        intro other member
        rcases List.mem_cons.mp member with rfl | member
        · exact before
        · exact leftBefore other member
      · refine ⟨[], first :: rest, rfl, by simp, ?_⟩
        intro other member
        rcases List.mem_cons.mp member with rfl | member
        · exact not_le.mp before
        · exact lt_of_lt_of_le (not_le.mp before) (firstLeast other member)

/-! ## The order of insertion -/

/-- Due earlier, or due at the same time and stamped earlier. -/
def Sooner {ι : Type} [LinearOrder ι] (deadline : α → κ) (stamp : α → ι) (earlier later : α) : Prop :=
  deadline earlier < deadline later ∨
    deadline earlier = deadline later ∧ stamp earlier < stamp later

/-- An insertion keeps entries with one deadline in the order of their stamps, as long as
the stamps grow. -/
theorem enqueue_pairwise_sooner {ι : Type} [LinearOrder ι] {stamp : α → ι} {agenda : List α}
    {entry : α} (sorted : agenda.Pairwise (Sooner deadline stamp))
    (latest : ∀ other ∈ agenda, stamp other < stamp entry) :
    (Scheduling.enqueue deadline entry agenda).Pairwise (Sooner deadline stamp) := by
  refine List.pairwise_append.mpr ⟨sorted.filter _, List.pairwise_cons.mpr ⟨?_, sorted.filter _⟩, ?_⟩
  · intro later member
    exact .inl (of_decide_eq_true (List.mem_filter.mp member).2)
  · intro earlier member later member'
    obtain ⟨known, before⟩ := List.mem_filter.mp member
    have before : deadline earlier ≤ deadline entry := of_decide_eq_true before
    rcases List.mem_cons.mp member' with rfl | member'
    · rcases lt_or_eq_of_le before with early | same
      · exact .inl early
      · exact .inr ⟨same, latest earlier known⟩
    · have behind : deadline entry < deadline later :=
        of_decide_eq_true (List.mem_filter.mp member').2
      exact .inl (lt_of_le_of_lt before behind)

/-! ## Entries that carry more data -/

section Map

variable {β : Type} {view : β → α}

theorem enqueue_map (entry : β) (agenda : List β) :
    Scheduling.enqueue deadline (view entry) (agenda.map view) =
      (Scheduling.enqueue (fun other => deadline (view other)) entry agenda).map view := by
  unfold Scheduling.enqueue
  rw [List.filter_map, List.filter_map, List.map_append, List.map_cons]
  rfl

theorem pending_map (now : κ) (agenda : List β) :
    pending deadline now (agenda.map view) =
      (pending (fun other => deadline (view other)) now agenda).map view :=
  List.filter_map

theorem due_map (now : κ) (agenda : List β) :
    due deadline now (agenda.map view) =
      (due (fun other => deadline (view other)) now agenda).map view :=
  List.filter_map

end Map

/-- Withdrawing an entry by its key, when no other entry has that key. -/
theorem filter_key_ne_middle {ι : Type} [DecidableEq ι] (key : α → ι) {left right : List α}
    {entry : α} (distinct : ((left ++ entry :: right).map key).Nodup) :
    (left ++ entry :: right).filter (fun other => key other ≠ key entry) = left ++ right := by
  rw [List.map_append, List.map_cons] at distinct
  have outside := (List.nodup_cons.mp (List.nodup_middle.mp distinct)).1
  rw [← List.map_append] at outside
  have keep : ∀ other ∈ left ++ right, decide (key other ≠ key entry) = true := by
    intro other member
    have different : key other ≠ key entry := fun same =>
      outside (same ▸ List.mem_map_of_mem member)
    simpa using different
  rw [List.filter_append, List.filter_cons_of_neg (by simp), ← List.filter_append]
  exact List.filter_eq_self.mpr keep

theorem due_append_pending_perm (now : κ) (agenda : List α) :
    (due deadline now agenda ++ pending deadline now agenda).Perm agenda := by
  have complement : (fun entry => decide (now < deadline entry)) =
      fun entry => !decide (deadline entry ≤ now) := by
    funext entry
    by_cases early : deadline entry ≤ now
    · simp [early, not_lt_of_ge early]
    · simp [early, lt_of_not_ge early]
  unfold due pending
  rw [complement]
  exact List.filter_append_perm _ _

theorem filter_key_eq_middle {ι : Type} [DecidableEq ι] (key : α → ι) {left right : List α}
    {entry : α} (distinct : ((left ++ entry :: right).map key).Nodup) :
    (left ++ entry :: right).filter (fun other => key other = key entry) = [entry] := by
  rw [List.map_append, List.map_cons] at distinct
  have outside := (List.nodup_cons.mp (List.nodup_middle.mp distinct)).1
  rw [← List.map_append] at outside
  have noOther : ∀ other ∈ left ++ right, ¬ decide (key other = key entry) = true := by
    intro other member same
    exact outside (of_decide_eq_true same ▸ List.mem_map_of_mem member)
  rw [List.filter_append, List.filter_cons_of_pos (by simp),
    List.filter_eq_nil_iff.mpr fun other member => noOther other (List.mem_append_left _ member),
    List.filter_eq_nil_iff.mpr fun other member => noOther other (List.mem_append_right _ member),
    List.nil_append]

/-- Unless nothing is due, the first entry is. -/
theorem Ordered.first_due {now : κ} {agenda : List α} (ordered : Ordered deadline agenda)
    (busy : ¬ ∀ entry ∈ agenda, now < deadline entry) :
    ∃ first rest, agenda = first :: rest ∧ deadline first ≤ now := by
  cases agenda with
  | nil => exact absurd (fun _ member => absurd member List.not_mem_nil) busy
  | cons first rest =>
      refine ⟨first, rest, rfl, le_of_not_gt fun waiting => busy fun entry member => ?_⟩
      rcases List.mem_cons.mp member with rfl | member
      · exact waiting
      · exact lt_of_lt_of_le waiting ((List.pairwise_cons.mp ordered).1 entry member)

theorem Ordered.pending_eq_self {now : κ} {first : α} {rest : List α}
    (ordered : Ordered deadline (first :: rest)) (waiting : now < deadline first) :
    pending deadline now (first :: rest) = first :: rest := by
  refine List.filter_eq_self.mpr fun entry member => ?_
  rcases List.mem_cons.mp member with rfl | member
  · simpa using waiting
  · simpa using lt_of_lt_of_le waiting ((List.pairwise_cons.mp ordered).1 entry member)

theorem Ordered.due_eq_nil {now : κ} {first : α} {rest : List α}
    (ordered : Ordered deadline (first :: rest)) (waiting : now < deadline first) :
    due deadline now (first :: rest) = [] := by
  refine List.filter_eq_nil_iff.mpr fun entry member => ?_
  rcases List.mem_cons.mp member with rfl | member
  · simpa using waiting
  · simpa using lt_of_lt_of_le waiting ((List.pairwise_cons.mp ordered).1 entry member)

end HPLinuxServer.Scheduling
