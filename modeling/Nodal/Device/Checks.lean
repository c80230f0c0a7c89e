import Nodal.Failure

/-! # Checks of component parameters -/

namespace Nodal
variable {α : Type} [Scalar α]

def requirePositive (component parameter : String) (value : α) : Except (Failure α) Unit :=
  if Scalar.isPositive value then .ok ()
  else .error (.parameter component parameter (.notPositive value))

def requireFinite (component parameter : String) (value : α) : Except (Failure α) Unit :=
  if Scalar.isFinite value then .ok ()
  else .error (.parameter component parameter (.notFinite value))

def requireNonnegative (component parameter : String) (value : α) : Except (Failure α) Unit :=
  if decide (0 ≤ value) && Scalar.isFinite value then .ok ()
  else .error (.parameter component parameter (.negative value))

/-- The branch of a voltage source, once it has one. -/
def requireBranch (component : String) : Option Branch → Except (Failure α) Branch
  | some b => .ok b
  | none => .error (.topology (.unassignedBranch component))

end Nodal
