import Nodal.Linear.Matrix

/-! # Nonlinear systems -/

namespace Nodal

inductive UnknownKind where
  | voltage
  | current
  deriving DecidableEq, Repr, Inhabited

/-- As many equations as unknowns: `residual x = 0`. -/
structure NonlinearSystem (α : Type) where
  residual : List α → Outcome α (List α)
  /-- The slopes of the residual: a row for each equation. -/
  jacobian : List α → Outcome α (Matrix α)
  kind : Nat → UnknownKind
  guess : List α

end Nodal
