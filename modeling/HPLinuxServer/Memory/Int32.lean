import HPLinuxServer.Memory.Heap

/-!
# Signed 32-bit arithmetic

Integers of the program are mathematical ones; a computation of type `int` that
leaves the range of 32 bits is a fault.
-/

set_option autoImplicit false

namespace HPLinuxServer.Memory

/-- The value of a signed `int` computation, which must not overflow. -/
def checkInt (value : Int) : Except Fault Int :=
  if -2147483648 ≤ value ∧ value ≤ 2147483647 then .ok value else .error .signedOverflow

theorem checkInt_eq_ok {value : Int} (low : -2147483648 ≤ value) (high : value ≤ 2147483647) :
    checkInt value = .ok value := if_pos ⟨low, high⟩

end HPLinuxServer.Memory
