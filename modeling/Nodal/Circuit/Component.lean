import Nodal.Device.Companion
import Nodal.Device.Diode
import Nodal.Device.Mosfet
import Nodal.Device.Resistor
import Nodal.Device.Waveform

/-! # Components

A component contributes to the equations in three ways. Its static part does not change while the
circuit stays the same; its dynamic part is stamped anew for each tick; its nonlinear part adds
currents, and the slopes of these currents, at a trial solution. After a tick it tells the currents
that flow through it. -/

namespace Nodal

/-- What a component is, with the nodes that it is connected to. -/
inductive Device (α : Type) where
  | resistor (a b : Node) (resistance : α) (fault : ResistorFault)
  | wire (a b : Node) (branch : Option Branch)
  /-- Keeps `b` above `a`. -/
  | voltageSource (a b : Node) (waveform : Waveform α) (branch : Option Branch)
  /-- Draws from `a` and pushes into `b`. -/
  | currentSource (a b : Node) (current : α)
  | capacitor (a b : Node) (capacitance : α)
  | inductor (a b : Node) (inductance : α)
  | opAmp (plus minus output : Node) (gain : α) (branch : Option Branch)
  | diode (anode cathode : Node) (params : DiodeParams α)
  | mosfet (drain gate source : Node) (channel : Channel) (params : MosfetParams α)
  deriving Repr

namespace Device
variable {α : Type}

def kind : Device α → Kind
  | resistor .. => .resistor
  | wire .. => .wire
  | voltageSource .. => .voltageSource
  | currentSource .. => .currentSource
  | capacitor .. => .capacitor
  | inductor .. => .inductor
  | opAmp .. => .opAmp
  | diode .. => .diode
  | mosfet .. => .mosfet

def nodes : Device α → List Node
  | resistor a b _ _ => [a, b]
  | wire a b _ => [a, b]
  | voltageSource a b _ _ => [a, b]
  | currentSource a b _ => [a, b]
  | capacitor a b _ => [a, b]
  | inductor a b _ => [a, b]
  | opAmp plus minus output _ _ => [plus, minus, output]
  | diode anode cathode _ => [anode, cathode]
  | mosfet drain gate source _ _ => [drain, gate, source]

/-- How many rows for voltage sources the device needs. -/
def numSources : Device α → Nat
  | wire .. | voltageSource .. | opAmp .. => 1
  | _ => 0

def numCurrents : Device α → Nat
  | opAmp .. => 2
  | _ => 1

def branch? : Device α → Option Branch
  | wire _ _ branch => branch
  | voltageSource _ _ _ branch => branch
  | opAmp _ _ _ _ branch => branch
  | _ => none

/-- Gives a branch to a device that needs one. -/
def assignBranch (branch : Branch) : Device α → Device α
  | wire a b _ => wire a b (some branch)
  | voltageSource a b waveform _ => voltageSource a b waveform (some branch)
  | opAmp plus minus output gain _ => opAmp plus minus output gain (some branch)
  | d => d

/-- Whether the device's currents are a nonlinear function of the solution. -/
def isNonlinear : Device α → Bool
  | diode .. | mosfet .. => true
  | _ => false

end Device

structure Component (α : Type) where
  id : ComponentId
  name : String
  device : Device α
  deriving Repr

def Stamping.check {α β : Type} : Except (Failure α) β → Stamping α β
  | .ok v => pure v
  | .error e => throw (.failed e)

/-- Voltage of a node in a solution without ground. -/
def nodeVoltage {α : Type} [Scalar α] (x : List α) (n : Node) : Outcome α α :=
  match n.row? with
  | none => pure 0
  | some i =>
    match x[i]? with
    | some v => pure v
    | none => .misuse .outOfRange

/-- Changes the entry of a node's row; ground has none. -/
def modifyNode {α : Type} (xs : List α) (n : Node) (f : α → α) : Outcome α (List α) :=
  match n.row? with
  | none => pure xs
  | some i => if i < xs.length then pure (xs.modify i f) else .misuse .outOfRange

/-- Adds to the cell of two nodes; ground has neither row nor column. -/
def Matrix.addNodes {α : Type} [Scalar α] (m : Matrix α) (a b : Node) (v : α) :
    Outcome α (Matrix α) :=
  match a.row?, b.row? with
  | some i, some j => m.add i j v
  | _, _ => pure m

namespace Component
variable {α : Type} [Scalar α]

def kind (c : Component α) : Kind := c.device.kind

def nodes (c : Component α) : List Node := c.device.nodes

def isNonlinear (c : Component α) : Bool := c.device.isNonlinear

def stampVoltage (c : Component α) (v : α) (a b : Node) (branch : Option Branch) :
    Stamping α Unit := do
  let branch ← Stamping.check (requireBranch c.name branch)
  let _ ← Equation.stampVoltageSource v a b branch

/-- Stamps what does not change from tick to tick, and checks the parameters. -/
def stamp (c : Component α) : Stamping α Unit :=
  match c.device with
  | .resistor a b resistance fault => do
    let r := fault.effective resistance
    Stamping.check (requirePositive c.name "resistance" r)
    Equation.stampResistor r a b
  | .wire a b branch => c.stampVoltage 0 a b branch
  | .voltageSource a b waveform branch =>
    if waveform.isTimeVarying then pure () else c.stampVoltage (waveform.valueAt 0) a b branch
  | .currentSource a b current => Equation.stampCurrentSource current a b
  | .capacitor _ _ capacitance => Stamping.check (requirePositive c.name "capacitance" capacitance)
  | .inductor _ _ inductance => Stamping.check (requirePositive c.name "inductance" inductance)
  | .opAmp plus minus output gain branch => do
    Stamping.check (requireFinite c.name "gain" gain)
    let branch ← Stamping.check (requireBranch c.name branch)
    let _ ← Equation.stampControlledSource gain output .ground plus minus branch
  | .diode _ _ params => Stamping.check (params.check c.name)
  | .mosfet _ _ _ _ params => Stamping.check (params.check c.name)

def stampCompanion (made : Except (Failure α) (Companion α)) (a b : Node) :
    Stamping α (Option (Companion α)) := do
  let companion ← Stamping.check made
  companion.stamp a b
  return some companion

/-- Stamps what changes from tick to tick: companions, and the sources that vary with time. The
companion tells the current after the tick. -/
def stampDynamic (c : Component α) (timestep time : α) (previous : ComponentState α) :
    Stamping α (Option (Companion α)) :=
  match c.device with
  | .voltageSource a b waveform branch => do
    if waveform.isTimeVarying then c.stampVoltage (waveform.valueAt time) a b branch
    return none
  | .capacitor a b capacitance =>
    stampCompanion (Companion.capacitor c.name capacitance timestep previous) a b
  | .inductor a b inductance =>
    stampCompanion (Companion.inductor c.name inductance timestep previous) a b
  | _ => return none

def pairVoltage (x : List α) (a b : Node) : Outcome α α := do
  let v ← nodeVoltage x a
  let w ← nodeVoltage x b
  return v - w

def pointAt (x : List α) (drain gate source : Node) (channel : Channel)
    (params : MosfetParams α) : Outcome α (OperatingPoint α) := do
  let d ← nodeVoltage x drain
  let g ← nodeVoltage x gate
  let s ← nodeVoltage x source
  return params.operatingPoint channel d g s

/-- Adds the nonlinear currents that leave each node at a trial solution. -/
def addCurrents (c : Component α) (x residual : List α) : Outcome α (List α) :=
  match c.device with
  | .diode anode cathode params => do
    let i := params.current (← pairVoltage x anode cathode)
    let residual ← modifyNode residual anode (· + i)
    modifyNode residual cathode (· - i)
  | .mosfet drain gate source channel params => do
    let point ← pointAt x drain gate source channel params
    let residual ← modifyNode residual drain (· + point.drainCurrent)
    modifyNode residual source (· - point.drainCurrent)
  | _ => pure residual

/-- Adds a slope of the current from `drain` to `source` to both their rows. -/
def addSlope (jacobian : Matrix α) (drain source : Node) (along : Node) (g : α) :
    Outcome α (Matrix α) := do
  let jacobian ← jacobian.addNodes drain along g
  jacobian.addNodes source along (-g)

def addSlopes (c : Component α) (x : List α) (jacobian : Matrix α) : Outcome α (Matrix α) :=
  match c.device with
  | .diode anode cathode params => do
    let g := params.conductance (← pairVoltage x anode cathode)
    let jacobian ← jacobian.addNodes anode anode g
    let jacobian ← jacobian.addNodes cathode cathode g
    let jacobian ← jacobian.addNodes anode cathode (-g)
    jacobian.addNodes cathode anode (-g)
  | .mosfet drain gate source channel params => do
    let point ← pointAt x drain gate source channel params
    let jacobian ← addSlope jacobian drain source drain point.alongDrain
    let jacobian ← addSlope jacobian drain source gate point.alongGate
    addSlope jacobian drain source source point.alongSource
  | _ => pure jacobian

def branchCurrent (s : Solution α) : Option Branch → α
  | some b => s.branchCurrent b
  | none => 0

/-- The currents that a solution tells. Those of capacitors and inductors come from their
companions and are zero here. -/
def currents (c : Component α) (s : Solution α) : List α :=
  match c.device with
  | .resistor a b resistance fault => [(s.voltage a - s.voltage b) / fault.effective resistance]
  | .wire _ _ branch => [branchCurrent s branch]
  | .voltageSource _ _ _ branch => [branchCurrent s branch]
  | .currentSource _ _ current => [current]
  | .capacitor .. => [0]
  | .inductor .. => [0]
  | .opAmp _ _ _ _ branch => [0, branchCurrent s branch]
  | .diode anode cathode params => [params.current (s.voltage anode - s.voltage cathode)]
  | .mosfet drain gate source channel params =>
    [(params.operatingPoint channel (s.voltage drain) (s.voltage gate)
      (s.voltage source)).drainCurrent]

end Component

end Nodal
