import Mathlib.Logic.Function.Basic

/-!
# A mutex and the sections it guards

Which threads are in a guarded section, and which thread has the mutex.
-/

set_option autoImplicit false

namespace HPLinuxServer.Concurrency

variable {θ : Type}

/-- Exactly the owner of the mutex is inside. -/
def Exclusive (inside : θ → Bool) (owner : Option θ) : Prop :=
  ∀ thread, inside thread = true ↔ owner = some thread

namespace Exclusive

variable {inside : θ → Bool} {owner : Option θ} {thread : θ}

theorem outside (exclusive : Exclusive inside none) (thread : θ) : inside thread = false := by
  cases entered : inside thread with
  | false => rfl
  | true => exact nomatch (exclusive thread).mp entered

theorem unique (exclusive : Exclusive inside owner) {other : θ} (here : inside thread = true)
    (there : inside other = true) : other = thread :=
  Option.some.inj (((exclusive other).mp there).symm.trans ((exclusive thread).mp here))

variable [DecidableEq θ]

theorem lock (exclusive : Exclusive inside none) (thread : θ) :
    Exclusive (Function.update inside thread true) (some thread) := by
  intro other
  rcases Decidable.em (other = thread) with rfl | apart
  · simp
  · rw [Function.update_of_ne apart, exclusive.outside]
    exact ⟨nofun, fun same => absurd (Option.some.inj same).symm apart⟩

theorem unlock (exclusive : Exclusive inside owner) (here : inside thread = true) :
    Exclusive (Function.update inside thread false) none := by
  intro other
  rcases Decidable.em (other = thread) with rfl | apart
  · simp
  · rw [Function.update_of_ne apart]
    exact ⟨fun there => absurd (exclusive.unique here there) apart, nofun⟩

/-- A step that does not use the mutex. -/
theorem stay (exclusive : Exclusive inside owner) {next : Bool} (same : next = inside thread) :
    Exclusive (Function.update inside thread next) owner := by
  rw [same, Function.update_eq_self]
  exact exclusive

end Exclusive

end HPLinuxServer.Concurrency
