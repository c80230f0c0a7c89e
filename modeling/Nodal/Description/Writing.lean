import Nodal.Description.Basic
import Nodal.Json.Writer

/-! # Writing circuit files

Every field is written, in the order of its record, save a name or a frequency that is not there.
The kind of a component stands between its nodes and its parameters. How a floating point number is
spelled is left open: `spell` has no literal for a number that cannot be written. -/

namespace Nodal

open Json (Value Literal)

variable (spell : Float → Option Literal)

def NewtonSettings.toValue (s : NewtonSettings Float) : Value :=
  .record [
    ("max_iterations", .nat s.maxIterations),
    ("tolerance", .float spell s.tolerance),
    ("max_restarts", .nat s.maxRestarts),
    ("initial_alpha", .float spell s.initialAlpha),
    ("alpha_growth", .float spell s.alphaGrowth),
    ("alpha_shrink", .float spell s.alphaShrink),
    ("min_alpha", .float spell s.minAlpha),
    ("random_scale", .float spell s.randomScale),
    ("stability_eps", .float spell s.stabilityEps),
    ("max_voltage_step", .float spell s.maxVoltageStep),
    ("max_current_step", .float spell s.maxCurrentStep)]

def SimulatorSettings.toValue (s : SimulatorSettings Float) : Value :=
  .record [
    ("timestep", .float spell s.timestep),
    ("sim_time_per_sec", .float spell s.rate),
    ("seed", .nat s.seed.toNat),
    ("newton", s.newton.toValue spell)]

def DiodeParams.toValue (p : DiodeParams Float) : Value :=
  .record [
    ("saturation_current", .float spell p.saturationCurrent),
    ("ideality", .float spell p.ideality)]

def MosfetParams.toValue (p : MosfetParams Float) : Value :=
  .record [
    ("width", .float spell p.width),
    ("length", .float spell p.length),
    ("cox", .float spell p.cox),
    ("mobility", .float spell p.mobility),
    ("vth", .float spell p.vth),
    ("lambda", .float spell p.lambda)]

def Parameters.toFields : Parameters Float → List (String × Value)
  | resistor resistance fault =>
    [("resistance", .float spell resistance), ("fault", .string fault.name)]
  | wire => []
  | voltageSource voltage frequency zeroTime =>
    [("voltage", .float spell voltage)] ++
      frequency.toList.map (fun f => ("frequency", .float spell f)) ++
      [("zero_time", .float spell zeroTime)]
  | currentSource current => [("current", .float spell current)]
  | capacitor capacitance => [("capacitance", .float spell capacitance)]
  | inductor inductance => [("inductance", .float spell inductance)]
  | opAmp gain => [("gain", .float spell gain)]
  | diode params => [("params", params.toValue spell)]
  | mosfet channel params =>
    [("channel", .string channel.name), ("params", params.toValue spell)]

/-- The members that every component has, with its kind at the end. -/
def ComponentDescription.commonMembers (d : ComponentDescription Float) : List (String × Value) :=
  [("id", .nat d.id.number)] ++ d.name.toList.map (fun name => ("name", .string name)) ++
    [("nodes", .array (d.nodes.map fun n => .nat n.number.toNat)),
      ("type", .string d.parameters.kind.name)]

def ComponentDescription.toValue (d : ComponentDescription Float) : Value :=
  .record (d.commonMembers ++ d.parameters.toFields spell)

def Description.toValue (d : Description Float) : Value :=
  .record [
    ("simulation", d.simulation.toValue spell),
    ("components", .array (d.components.map (ComponentDescription.toValue spell)))]

def Description.toJson (d : Description Float) : String := (d.toValue spell).render

end Nodal
