/-!
# Partial correctness of computations that can fail

What holds of every value that a computation returns, whatever its failures, and which
failures it can have at all.
-/

set_option autoImplicit false

namespace HPLinuxServer.Refinement

variable {ε α β : Type}

def Yields (computation : Except ε α) (holds : α → Prop) : Prop :=
  ∀ value, computation = .ok value → holds value

namespace Yields

variable {holds : α → Prop}

theorem ok {value : α} (here : holds value) : Yields (.ok value : Except ε α) holds := by
  intro returned same
  exact Except.ok.inj same ▸ here

theorem ok_iff {value : α} : Yields (.ok value : Except ε α) holds ↔ holds value :=
  ⟨fun yields => yields value rfl, ok⟩

theorem pure {value : α} (here : holds value) :
    Yields (Pure.pure value : Except ε α) holds :=
  ok here

theorem error (failure : ε) : Yields (.error failure : Except ε α) holds := by
  intro value returned
  cases returned

theorem mono {computation : Except ε α} {stronger : α → Prop}
    (yields : Yields computation stronger) (weaker : ∀ value, stronger value → holds value) :
    Yields computation holds :=
  fun value returned => weaker value (yields value returned)

theorem bind {computation : Except ε β} {next : β → Except ε α} {between : β → Prop}
    (first : Yields computation between)
    (rest : ∀ value, between value → Yields (next value) holds) :
    Yields (computation >>= next) holds := by
  cases computation with
  | error failure => exact error failure
  | ok value => exact rest value (first value rfl)

theorem bind_of_eq {computation : Except ε β} {next : β → Except ε α}
    (rest : ∀ value, computation = .ok value → Yields (next value) holds) :
    Yields (computation >>= next) holds :=
  bind (fun _ returned => returned) rest

theorem bind_any {computation : Except ε β} {next : β → Except ε α}
    (rest : ∀ value, Yields (next value) holds) : Yields (computation >>= next) holds :=
  bind (fun _ _ => trivial) fun value (_ : True) => rest value

theorem ite {condition : Prop} [Decidable condition] {first second : Except ε α}
    (yes : condition → Yields first holds) (no : ¬condition → Yields second holds) :
    Yields (if condition then first else second) holds := by
  split
  · exact yes ‹_›
  · exact no ‹_›

end Yields

/-- The computation has no other failures. -/
def FailsOnly (computation : Except ε α) (allowed : ε → Prop) : Prop :=
  ∀ failure, computation = .error failure → allowed failure

namespace FailsOnly

variable {allowed : ε → Prop}

theorem ok (value : α) : FailsOnly (.ok value : Except ε α) allowed := by
  intro failure failed
  cases failed

theorem error {failure : ε} (here : allowed failure) :
    FailsOnly (.error failure : Except ε α) allowed := by
  intro other failed
  exact Except.error.inj failed ▸ here

theorem bind {computation : Except ε β} {next : β → Except ε α}
    (first : FailsOnly computation allowed)
    (rest : ∀ value, computation = .ok value → FailsOnly (next value) allowed) :
    FailsOnly (computation >>= next) allowed := by
  cases computation with
  | error failure => exact error (first failure rfl)
  | ok value => exact rest value rfl

theorem ite {condition : Prop} [Decidable condition] {first second : Except ε α}
    (yes : condition → FailsOnly first allowed) (no : ¬condition → FailsOnly second allowed) :
    FailsOnly (if condition then first else second) allowed := by
  split
  · exact yes ‹_›
  · exact no ‹_›

end FailsOnly

end HPLinuxServer.Refinement
