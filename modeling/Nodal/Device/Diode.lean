import Nodal.Device.Checks

/-! # The diode law

The current grows exponentially with the voltage up to the critical voltage and goes on along the
tangent from there, so that large trial voltages stay within range. -/

namespace Nodal

/-- Voltage of the thermal energy of a charge at room temperature. -/
def thermalVoltage {α : Type} [Scalar α] : α := 0.0258

structure DiodeParams (α : Type) where
  /-- The current that the diode approaches in reverse. -/
  saturationCurrent : α
  /-- How many thermal voltages make the exponent grow by one. -/
  ideality : α
  deriving Repr

namespace DiodeParams
variable {α : Type} [Scalar α]

def standard : DiodeParams α := ⟨1e-14, 1⟩

/-- The voltage that makes the exponent grow by one. -/
def scaleVoltage (p : DiodeParams α) : α := p.ideality * thermalVoltage

/-- The voltage from which on the curve is straight. -/
def criticalVoltage (p : DiodeParams α) : α :=
  let n := p.scaleVoltage
  n * Scalar.ln (n / (Scalar.sqrtTwo * p.saturationCurrent))

def check (component : String) (p : DiodeParams α) : Except (Failure α) Unit := do
  requirePositive component "saturation_current" p.saturationCurrent
  requirePositive component "ideality" p.ideality

/-- Current from anode to cathode. -/
def current (p : DiodeParams α) (v : α) : α :=
  let i := p.saturationCurrent
  let n := p.scaleVoltage
  let c := p.criticalVoltage
  if c < v then
    let e := Scalar.exp (c / n)
    i * (e - 1) + i / n * e * (v - c)
  else i * (Scalar.exp (v / n) - 1)

def conductance (p : DiodeParams α) (v : α) : α :=
  let i := p.saturationCurrent
  let n := p.scaleVoltage
  i / n * Scalar.exp (Scalar.min v p.criticalVoltage / n)

end DiodeParams

end Nodal
