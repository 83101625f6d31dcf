import Mathlib.Data.List.Basic

/-!
# Edge-triggered descriptors

What has arrived at a descriptor that one epoll instance watches with EPOLLET, and
the events it raises: an arrival raises one, or is merged with one that `epoll_wait`
has not returned yet. What the event's handler leaves behind raises none.
-/

set_option autoImplicit false

namespace HPLinuxServer.Kernel

structure Watch (α : Type) where
  /-- what has arrived and has not been taken -/
  waiting : List α
  /-- an event that `epoll_wait` has not returned yet -/
  raised : Bool
  /-- an event that it has returned and that has not been handled yet -/
  reported : Bool
  deriving DecidableEq, Repr

namespace Watch

variable {α : Type} {watch : Watch α}

def idle : Watch α where
  waiting := []
  raised := false
  reported := false

def arrive (watch : Watch α) (items : List α) : Watch α :=
  { watch with waiting := watch.waiting ++ items, raised := true }

/-- `epoll_wait` returns the event. -/
def report (watch : Watch α) : Watch α := { watch with raised := false, reported := true }

/-- The event's handler takes this many items, or all there are. -/
def handled (watch : Watch α) (count : Nat) : Watch α :=
  { watch with waiting := watch.waiting.drop count, reported := false }

/-- What waits will be looked at: an event for it is still to come or to be handled. -/
def Covered (watch : Watch α) : Prop :=
  watch.waiting ≠ [] → watch.raised = true ∨ watch.reported = true

/-- There is one event for each item. -/
def Matched (watch : Watch α) : Prop :=
  watch.waiting.length = watch.raised.toNat + watch.reported.toNat

theorem Matched.arrive (matched : watch.Matched) (quiet : watch.raised = false) (item : α) :
    (watch.arrive [item]).Matched := by
  unfold Matched Watch.arrive at *
  simp only [quiet, Bool.toNat_false] at matched
  simp only [List.length_append, List.length_singleton, Bool.toNat_true]
  omega

theorem Matched.report (matched : watch.Matched) (raised : watch.raised = true)
    (handled : watch.reported = false) : watch.report.Matched := by
  unfold Matched Watch.report at *
  simpa [raised, handled] using matched

theorem Matched.handled_one (matched : watch.Matched) (reported : watch.reported = true) :
    (watch.handled 1).Matched := by
  unfold Matched Watch.handled at *
  simp only [reported, Bool.toNat_true] at matched
  simp only [List.length_drop, Bool.toNat_false]
  omega

theorem Matched.head (matched : watch.Matched) (reported : watch.reported = true) :
    ∃ item rest, watch.waiting = item :: rest := by
  apply List.exists_cons_of_length_pos
  unfold Matched at matched
  simp only [reported, Bool.toNat_true] at matched
  omega

theorem Matched.waiting_nil (matched : watch.Matched) (raised : watch.raised = false)
    (reported : watch.reported = false) : watch.waiting = [] := by
  apply List.eq_nil_of_length_eq_zero
  unfold Matched at matched
  simpa [raised, reported] using matched

theorem covered_arrive (items : List α) : (watch.arrive items).Covered := fun _ => .inl rfl

theorem covered_report : watch.report.Covered := fun _ => .inr rfl

/-- A handler may leave something behind only if more has arrived since the report. -/
theorem covered_handled_iff {count : Nat} :
    (watch.handled count).Covered ↔ watch.waiting.length ≤ count ∨ watch.raised = true := by
  unfold Covered handled
  simp only [ne_eq, List.drop_eq_nil_iff, Bool.false_eq_true, or_false]
  exact Decidable.imp_iff_or_not.trans (by rw [Decidable.not_not, or_comm])

end Watch

end HPLinuxServer.Kernel
