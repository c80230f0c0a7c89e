import Nodal.Circuit.Basic
import Nodal.Transient.Settings

/-! # Circuit descriptions

What a circuit file says: the settings of the simulation, and the components with their parameters.
A description is turned into components before its structure is looked at. -/

namespace Nodal

inductive Parameters (α : Type) where
  | resistor (resistance : α) (fault : ResistorFault)
  | wire
  /-- Constant without a frequency, a sine with one. -/
  | voltageSource (voltage : α) (frequency : Option α) (zeroTime : α)
  | currentSource (current : α)
  | capacitor (capacitance : α)
  | inductor (inductance : α)
  | opAmp (gain : α)
  | diode (params : DiodeParams α)
  | mosfet (channel : Channel) (params : MosfetParams α)
  deriving Repr

def Parameters.kind {α : Type} : Parameters α → Kind
  | resistor .. => .resistor
  | wire => .wire
  | voltageSource .. => .voltageSource
  | currentSource .. => .currentSource
  | capacitor .. => .capacitor
  | inductor .. => .inductor
  | opAmp .. => .opAmp
  | diode .. => .diode
  | mosfet .. => .mosfet

structure ComponentDescription (α : Type) where
  id : ComponentId
  name : Option String
  nodes : List Node
  parameters : Parameters α
  deriving Repr

structure Description (α : Type) where
  simulation : SimulatorSettings α
  components : List (ComponentDescription α)
  deriving Repr

def defaultGain {α : Type} [Scalar α] : α := 1e6

def waveformOf {α : Type} (voltage : α) (frequency : Option α) (zeroTime : α) : Waveform α :=
  match frequency with
  | some f => .sine voltage f zeroTime
  | none => .constant voltage

namespace ComponentDescription
variable {α : Type}

/-- The given name, or the letter of the kind with the number of the component. -/
def displayName (d : ComponentDescription α) : String :=
  d.name.getD (d.parameters.kind.designator ++ toString d.id.number)

/-- Connects the device to its nodes; there is none when their number is wrong. -/
def device? (d : ComponentDescription α) : Option (Device α) :=
  match d.parameters, d.nodes with
  | .resistor resistance fault, [a, b] => some (.resistor a b resistance fault)
  | .wire, [a, b] => some (.wire a b none)
  | .voltageSource voltage frequency zeroTime, [a, b] =>
    some (.voltageSource a b (waveformOf voltage frequency zeroTime) none)
  | .currentSource current, [a, b] => some (.currentSource a b current)
  | .capacitor capacitance, [a, b] => some (.capacitor a b capacitance)
  | .inductor inductance, [a, b] => some (.inductor a b inductance)
  | .opAmp gain, [plus, minus, output] => some (.opAmp plus minus output gain none)
  | .diode params, [anode, cathode] => some (.diode anode cathode params)
  | .mosfet channel params, [drain, gate, source] => some (.mosfet drain gate source channel params)
  | _, _ => none

def toComponent (d : ComponentDescription α) : Except (Failure α) (Component α) :=
  match d.device? with
  | some device => .ok ⟨d.id, d.displayName, device⟩
  | none => .error (.topology (.terminalCount d.id d.parameters.kind d.nodes.length))

end ComponentDescription

namespace Description
variable {α : Type}

def toComponents (d : Description α) : Except (Failure α) (List (Component α)) :=
  d.components.mapM ComponentDescription.toComponent

def toCircuit (d : Description α) : Except (Failure α) (Circuit α) := do
  let cs ← d.toComponents
  Circuit.ofComponents cs

end Description

end Nodal
