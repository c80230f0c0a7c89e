import Nodal.Device.Checks
import Nodal.Equation
import Nodal.Transient.State

/-! # Companions of capacitors and inductors

Over one timestep the trapezoidal rule turns a capacitor or an inductor into a conductance beside a
current source. The source remembers the state before the step. -/

namespace Nodal

/-- The current through the element is `conductance * v - history`, at the voltage `v` across it. -/
structure Companion (α : Type) where
  conductance : α
  history : α
  deriving Repr

namespace Companion
variable {α : Type} [Scalar α]

/-- The companion of a capacitor, from its state before the step. -/
def capacitor (component : String) (capacitance timestep : α) (previous : ComponentState α) :
    Except (Failure α) (Companion α) := do
  requirePositive component "capacitance" capacitance
  requirePositive component "timestep" timestep
  let g := 2.0 * capacitance / timestep
  return ⟨g, previous.current + g * previous.voltageAcross⟩

def inductor (component : String) (inductance timestep : α) (previous : ComponentState α) :
    Except (Failure α) (Companion α) := do
  requirePositive component "inductance" inductance
  requirePositive component "timestep" timestep
  let g := timestep / (2.0 * inductance)
  return ⟨g, -(previous.current + g * previous.voltageAcross)⟩

def stamp (c : Companion α) (a b : Node) : Stamping α Unit := do
  Equation.stampConductance c.conductance a b
  Equation.stampCurrentSource c.history b a

/-- Current from the first node to the second at their voltages. -/
def current (c : Companion α) (v w : α) : α := (v - w) * c.conductance - c.history

/-- The current path of the element, from the voltages of its nodes. -/
def recover (c : Companion α) : List α → Outcome α (List α)
  | v :: w :: _ => pure [c.current v w]
  | _ => .misuse .outOfRange

end Companion

end Nodal
