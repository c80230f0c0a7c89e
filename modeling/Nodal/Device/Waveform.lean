import Nodal.Scalar

/-! # Source voltages over time -/

namespace Nodal

/-- What a voltage source puts out. -/
inductive Waveform (α : Type) where
  | constant (voltage : α)
  /-- `voltage * sin (2 * pi * frequency * (t - zeroTime))` at time `t`. -/
  | sine (voltage frequency zeroTime : α)
  deriving Repr

namespace Waveform
variable {α : Type}

def isTimeVarying : Waveform α → Bool
  | constant _ => false
  | sine _ _ _ => true

def valueAt [Scalar α] : Waveform α → α → α
  | constant voltage, _ => voltage
  | sine voltage frequency zeroTime, t =>
    voltage * Scalar.sin (2.0 * Scalar.pi * frequency * (t - zeroTime))

end Waveform

end Nodal
