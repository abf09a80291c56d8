import LogicNet.Cube.Text
import LogicNet.Fault

/-!
The operations on cubes that take their width from a caller. Each refuses a width that no pattern
has and otherwise agrees with the operation that it guards.
-/

namespace LogicNet

/-- As `Pattern.low`. -/
def Pattern.lowChecked (width : Nat) : Except Fault Pattern :=
  if width ≤ maxFanin then .ok (low width) else .error (.maskTooWide width)

namespace Cube

/-- As `Cube.minterm`. -/
def mintermChecked (pattern : Pattern) (width : Nat) : Except Fault Cube :=
  if width ≤ maxFanin then .ok (minterm pattern width) else .error (.maskTooWide width)

/-- As `Cube.render`. -/
def renderChecked (cube : Cube) (width : Nat) : Except Fault String :=
  if width ≤ maxFanin then .ok (cube.render width) else .error (.cubeTooWide width)

end Cube
end LogicNet
