import Nodal.Scalar

/-! # Resistors with faults -/

namespace Nodal

/-- A fault put into a resistor. -/
inductive ResistorFault where
  | intact
  | shorted
  | opened
  deriving DecidableEq, Repr, Inhabited

namespace ResistorFault

def name : ResistorFault → String
  | intact => "none"
  | shorted => "short"
  | opened => "open"

def ofName? (s : String) : Option ResistorFault :=
  [intact, shorted, opened].find? fun f => f.name = s

/-- The resistance that a resistor shows. -/
def effective {α : Type} [Scalar α] (nominal : α) : ResistorFault → α
  | intact => nominal
  | shorted => 1e-6
  | opened => 1e12

end ResistorFault

end Nodal
