/-! # Kinds of components

What a circuit file may name, with the facts that depend on the kind alone. -/

namespace Nodal

inductive Kind where
  | resistor
  | wire
  | voltageSource
  | currentSource
  | capacitor
  | inductor
  | opAmp
  | diode
  | mosfet
  deriving DecidableEq, Repr, Inhabited

namespace Kind

/-- All kinds, in the order in which a circuit file numbers them. -/
def all : List Kind :=
  [resistor, wire, voltageSource, currentSource, capacitor, inductor, opAmp, diode, mosfet]

def name : Kind → String
  | resistor => "resistor"
  | wire => "wire"
  | voltageSource => "voltage_source"
  | currentSource => "current_source"
  | capacitor => "capacitor"
  | inductor => "inductor"
  | opAmp => "op_amp"
  | diode => "diode"
  | mosfet => "mosfet"

/-- The letter in front of the number of a component without a name. -/
def designator : Kind → String
  | resistor => "R"
  | wire => "W"
  | voltageSource => "V"
  | currentSource => "I"
  | capacitor => "C"
  | inductor => "L"
  | opAmp => "U"
  | diode => "D"
  | mosfet => "M"

def terminals : Kind → Nat
  | opAmp => 3
  | mosfet => 3
  | _ => 2

/-- Reads a name; an op-amp has a second one. -/
def ofName? (s : String) : Option Kind :=
  if s = "opamp" then some opAmp else all.find? fun k => k.name = s

end Kind

end Nodal
