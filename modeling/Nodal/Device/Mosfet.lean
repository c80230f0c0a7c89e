import Nodal.Device.Checks

/-! # The square law of a field-effect transistor

The channel conducts when the gate is above the source by more than the threshold, in proportion to
the drain voltage at first (triode region) and hardly depending on it beyond (saturation). A
p-channel follows the same curve with all voltages and the current turned round. When the drain is
below the source, the two change parts. -/

namespace Nodal

/-- The charge that carries the current. -/
inductive Channel where
  | nmos
  | pmos
  deriving DecidableEq, Repr, Inhabited

namespace Channel

def name : Channel → String
  | nmos => "nmos"
  | pmos => "pmos"

def ofName? (s : String) : Option Channel := [nmos, pmos].find? fun c => c.name = s

/-- The sign of all voltages and of the current. -/
def polarity {α : Type} [Scalar α] : Channel → α
  | nmos => 1
  | pmos => -1

end Channel

structure MosfetParams (α : Type) where
  width : α
  length : α
  /-- Gate capacitance by area. -/
  cox : α
  mobility : α
  vth : α
  /-- How much the channel shortens with the drain voltage. -/
  lambda : α
  deriving Repr

/-- Drain current and its slopes along the three terminal voltages. -/
structure OperatingPoint (α : Type) where
  drainCurrent : α
  alongDrain : α
  alongGate : α
  alongSource : α
  deriving Repr

namespace MosfetParams
variable {α : Type} [Scalar α]

def standard : MosfetParams α :=
  { width := 10e-6, length := 1e-6, cox := 2e-3, mobility := 0.06, vth := 0.7, lambda := 0.01 }

/-- Current by squared voltage. -/
def gain (p : MosfetParams α) : α := p.mobility * p.cox * p.width / p.length

/-- Geometry and material must be above zero, the threshold finite, the shortening not below
zero. -/
def check (component : String) (p : MosfetParams α) : Except (Failure α) Unit := do
  requirePositive component "width" p.width
  requirePositive component "length" p.length
  requirePositive component "cox" p.cox
  requirePositive component "mobility" p.mobility
  requireFinite component "vth" p.vth
  requireNonnegative component "lambda" p.lambda

/-- Current and its slopes along gate and drain, for an n-channel with the drain not below the
source. -/
def forward (p : MosfetParams α) (gateSource drainSource : α) : α × α × α :=
  let k := p.gain
  let excess := gateSource - p.vth
  if excess ≤ 0 then (0, 0, 0)
  else
    let stretch := 1 + p.lambda * drainSource
    if drainSource < excess then
      let base := excess * drainSource - 0.5 * drainSource * drainSource
      (k * base * stretch, k * drainSource * stretch,
        k * ((excess - drainSource) * stretch + base * p.lambda))
    else
      (0.5 * k * excess * excess * stretch, k * excess * stretch,
        0.5 * k * excess * excess * p.lambda)

def operatingPoint (p : MosfetParams α) (channel : Channel) (drain gate source : α) :
    OperatingPoint α :=
  let sign : α := channel.polarity
  let drainSource := sign * (drain - source)
  if 0 ≤ drainSource then
    let (i, gm, gds) := p.forward (sign * (gate - source)) drainSource
    { drainCurrent := sign * i, alongDrain := gds, alongGate := gm, alongSource := -(gm + gds) }
  else
    let (i, gm, gds) := p.forward (sign * (gate - drain)) (-drainSource)
    { drainCurrent := -sign * i, alongDrain := gm + gds, alongGate := -gm, alongSource := -gds }

end MosfetParams

end Nodal
