import Nodal.Description.Basic
import Nodal.Json.Reader

/-! # Reading circuit files

A record is an object, or an array with the fields in their order. A known field stands at most
once; unknown ones are passed over. Components are objects only, and what stands in them must mean
something also where it is passed over. -/

namespace Nodal

open Json (Value RawText)

/-- A part of a description, or why there is none. -/
abbrev Reading (β : Type) := Except ParseFault β

namespace Reading
variable {β : Type}

/-- A value, or the fault that the field has none. -/
def ofOption (field : String) : Option β → Reading β
  | some v => .ok v
  | none => .error (.unexpected field)

/-! ## Plain values -/

def float (field : String) : Value → Reading Float
  | .number l => ofOption field l.float?
  | _ => .error (.unexpected field)

def word (field : String) : Value → Reading UInt64
  | .number l => ofOption field l.word?
  | _ => .error (.unexpected field)

def string (field : String) : Value → Reading String
  | .text t => ofOption field (RawText.string? t)
  | _ => .error (.unexpected field)

def list (field : String) (item : Value → Reading β) : Value → Reading (List β)
  | .array items => items.mapM item
  | _ => .error (.unexpected field)

def nullable (item : Value → Reading β) : Value → Reading (Option β)
  | .null => .ok none
  | v => (item v).map some

/-- Whether a value stands for having nothing to say. -/
def isNothing : Value → Bool
  | .null => true
  | .object members => members.isEmpty
  | _ => false

/-- A name out of a list, alone or as the only key of an object that says nothing more. -/
def choice (field : String) (ofName? : String → Option β) : Value → Reading β
  | .text t => ofOption field ((RawText.string? t).bind ofName?)
  | .object [(t, v)] =>
    if isNothing v then ofOption field ((RawText.string? t).bind ofName?)
    else .error (.unexpected field)
  | _ => .error (.unexpected field)

/-! ## Records -/

/-- The known fields of a record, each at most once. -/
abbrev Fields := List (String × Value)

/-- The members of an object with their keys as strings. -/
def members (ms : List (RawText × Value)) : Reading Fields :=
  ms.mapM fun (t, v) =>
    match RawText.string? t with
    | some key => .ok (key, v)
    | none => .error .malformed

/-- The known ones among the members of an object. -/
def select (known : List String) (ms : Fields) : Reading Fields :=
  let found := ms.filter fun (key, _) => known.contains key
  match known.find? fun name => 1 < (found.filter fun (key, _) => key = name).length with
  | some name => .error (.repeated name)
  | none => .ok found

/-- The known fields of an object, or of an array with fields in their order. -/
def record (field : String) (known : List String) : Value → Reading Fields
  | .object ms => do
    let ms ← members ms
    select known ms
  | .array items =>
    if known.length < items.length then .error (.unexpected field) else .ok (known.zip items)
  | _ => .error (.unexpected field)

def required (fs : Fields) (name : String) (item : String → Value → Reading β) : Reading β :=
  match fs.lookup name with
  | some v => item name v
  | none => .error (.missing name)

/-- A field that may be left out. -/
def optional (fs : Fields) (name : String) (default : β) (item : String → Value → Reading β) :
    Reading β :=
  match fs.lookup name with
  | some v => item name v
  | none => .ok default

def natural (field : String) (v : Value) : Reading Nat := do
  let w ← word field v
  return w.toNat

/-! ## Settings -/

def newtonFields : List String :=
  ["max_iterations", "tolerance", "max_restarts", "initial_alpha", "alpha_growth", "alpha_shrink",
    "min_alpha", "random_scale", "stability_eps", "max_voltage_step", "max_current_step"]

def newton (field : String) (v : Value) : Reading (NewtonSettings Float) := do
  let fs ← record field newtonFields v
  let d : NewtonSettings Float := .standard
  return {
    maxIterations := ← optional fs "max_iterations" d.maxIterations natural
    tolerance := ← optional fs "tolerance" d.tolerance float
    maxRestarts := ← optional fs "max_restarts" d.maxRestarts natural
    initialAlpha := ← optional fs "initial_alpha" d.initialAlpha float
    alphaGrowth := ← optional fs "alpha_growth" d.alphaGrowth float
    alphaShrink := ← optional fs "alpha_shrink" d.alphaShrink float
    minAlpha := ← optional fs "min_alpha" d.minAlpha float
    randomScale := ← optional fs "random_scale" d.randomScale float
    stabilityEps := ← optional fs "stability_eps" d.stabilityEps float
    maxVoltageStep := ← optional fs "max_voltage_step" d.maxVoltageStep float
    maxCurrentStep := ← optional fs "max_current_step" d.maxCurrentStep float }

def simulationFields : List String := ["timestep", "sim_time_per_sec", "seed", "newton"]

def simulation (field : String) (v : Value) : Reading (SimulatorSettings Float) := do
  let fs ← record field simulationFields v
  let d : SimulatorSettings Float := .standard
  return {
    timestep := ← optional fs "timestep" d.timestep float
    rate := ← optional fs "sim_time_per_sec" d.rate float
    seed := ← optional fs "seed" d.seed word
    newton := ← optional fs "newton" d.newton newton }

/-! ## Components -/

def diodeParams (field : String) (v : Value) : Reading (DiodeParams Float) := do
  let fs ← record field ["saturation_current", "ideality"] v
  let d : DiodeParams Float := .standard
  return {
    saturationCurrent := ← optional fs "saturation_current" d.saturationCurrent float
    ideality := ← optional fs "ideality" d.ideality float }

def mosfetParams (field : String) (v : Value) : Reading (MosfetParams Float) := do
  let fs ← record field ["width", "length", "cox", "mobility", "vth", "lambda"] v
  let d : MosfetParams Float := .standard
  return {
    width := ← optional fs "width" d.width float
    length := ← optional fs "length" d.length float
    cox := ← optional fs "cox" d.cox float
    mobility := ← optional fs "mobility" d.mobility float
    vth := ← optional fs "vth" d.vth float
    lambda := ← optional fs "lambda" d.lambda float }

/-- The kind by name, or by its place among all kinds. -/
def kind (field : String) : Value → Reading Kind
  | .number l => ofOption field (l.word?.bind fun w => Kind.all[w.toNat]?)
  | .text t => ofOption field ((RawText.string? t).bind Kind.ofName?)
  | _ => .error (.unexpected field)

def parameterFields : Kind → List String
  | .resistor => ["resistance", "fault"]
  | .wire => []
  | .voltageSource => ["voltage", "frequency", "zero_time"]
  | .currentSource => ["current"]
  | .capacitor => ["capacitance"]
  | .inductor => ["inductance"]
  | .opAmp => ["gain"]
  | .diode => ["params"]
  | .mosfet => ["channel", "params"]

/-- The parameters of a kind, out of all members of a component. -/
def parameters (kind : Kind) (ms : Fields) : Reading (Parameters Float) := do
  let fs ← select (parameterFields kind) ms
  match kind with
  | .resistor =>
    return .resistor (← required fs "resistance" float)
      (← optional fs "fault" .intact fun name => choice name ResistorFault.ofName?)
  | .wire => return .wire
  | .voltageSource =>
    return .voltageSource (← required fs "voltage" float)
      (← optional fs "frequency" none fun name => nullable (float name))
      (← optional fs "zero_time" 0 float)
  | .currentSource => return .currentSource (← required fs "current" float)
  | .capacitor => return .capacitor (← required fs "capacitance" float)
  | .inductor => return .inductor (← required fs "inductance" float)
  | .opAmp => return .opAmp (← optional fs "gain" defaultGain float)
  | .diode => return .diode (← optional fs "params" .standard diodeParams)
  | .mosfet =>
    return .mosfet (← optional fs "channel" .nmos fun name => choice name Channel.ofName?)
      (← optional fs "params" .standard mosfetParams)

/-- How deep containers nest inside the fields of a component: a document may nest 127 deep, and
three of these stand around the fields. -/
def fieldDepth : Nat := 124

def commonFields : List String := ["id", "name", "nodes", "type"]

def component (field : String) : Value → Reading (ComponentDescription Float)
  | .object ms => do
    let ms ← members ms
    if !ms.all fun (_, v) => v.isSound fieldDepth then throw .malformed
    let fs ← select commonFields ms
    return {
      id := ⟨← required fs "id" natural⟩
      name := ← optional fs "name" none fun name => nullable (string name)
      nodes := ← required fs "nodes" fun name => list name fun v => do return ⟨← word name v⟩
      parameters := ← parameters (← required fs "type" kind) ms }
  | _ => .error (.unexpected field)

/-! ## Files -/

def description (v : Value) : Reading (Description Float) := do
  let fs ← record "circuit" ["simulation", "components"] v
  return {
    simulation := ← optional fs "simulation" .standard simulation
    components := ← optional fs "components" [] fun name => list name (component name) }

end Reading

def Description.ofJson (text : String) : Except (Failure Float) (Description Float) :=
  match Value.ofString? text with
  | none => .error (.parse .malformed)
  | some v =>
    match Reading.description v with
    | .ok d => .ok d
    | .error fault => .error (.parse fault)

end Nodal
