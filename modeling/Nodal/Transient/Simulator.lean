import Nodal.Description.Basic
import Nodal.Transient.Assembly

/-! # Simulation over time

A simulator holds a circuit with its static equation and the state after the last tick. Real time is
scaled to simulated time and used up in ticks of one timestep; what is left over waits for the next
call. A tick that fails sets the state to zero and drops the waiting time. -/

namespace Nodal

/-- A circuit on its way through time. -/
structure Simulator (α : Type) where
  settings : SimulatorSettings α
  circuit : Circuit α
  /-- What does not change from tick to tick; none while the circuit is refused. -/
  equation : Option (Equation α)
  state : CircuitState α
  /-- The solution of the last tick, ground first. -/
  solution : List α
  /-- Simulated time that waits for the next tick. -/
  remaining : α
  /-- Simulated time of the last tick. -/
  time : α
  running : Bool
  lastError : Option (Failure α)
  newton : NewtonSolver α SplitMix64

abbrev Changing (α β : Type) := EStateM (Halt α) (Simulator α) β

namespace Simulator
variable {α : Type} [Scalar α]

/-- The Newton solver that settings ask for, at the start of its random numbers. -/
def solverOf (s : SimulatorSettings α) : NewtonSolver α SplitMix64 :=
  .ofSource s.newton (.ofSeed s.seed)

def initial : Simulator α :=
  { settings := .standard
    circuit := .unloaded
    equation := none
    state := []
    solution := [0]
    remaining := 0
    time := 0
    running := false
    lastError := none
    newton := solverOf .standard }

/-- Rounds that no run uses up. -/
def ampleBudget : Nat := 0x4000000000000000

/-! ## Settings and loading -/

/-- Replaces the settings; circuit and state stay. -/
def configure (settings : SimulatorSettings α) : Changing α Unit := fun s =>
  match settings.validate with
  | .ok () => .ok () { s with settings, newton := solverOf settings }
  | .error e => .error (.failed e) s

def zeroState (c : Circuit α) : CircuitState α :=
  c.components.map fun d => (d.id, .zeroed d.nodes.length d.device.numCurrents)

def reset (s : Simulator α) : Simulator α :=
  { s with
    state := zeroState s.circuit
    solution := List.replicate (s.circuit.numNodes + s.circuit.numSources) 0 }

/-- Replaces the circuit and starts from zero. An error of the circuit is kept, and the simulator is
not ready until another circuit is loaded. -/
def loadCircuit (c : Circuit α) : Changing α Unit := fun s =>
  match c.staticEquation with
  | .ok e =>
    .ok () (reset { s with
      circuit := c, remaining := 0, time := 0, equation := some e, lastError := none })
  | .error (.failed e) =>
    .ok () (reset { s with
      circuit := c, remaining := 0, time := 0, equation := none, lastError := some e })
  | .error h => .error h s

/-- Loads the circuit of some components. When two have the same id no circuit is left. -/
def loadComponents (cs : List (Component α)) : Changing α Unit := do
  match Circuit.ofComponents cs with
  | .ok c => loadCircuit c
  | .error e =>
    loadCircuit .unloaded
    modify fun s => { s with lastError := some e }

def loadDescription (d : Description α) : Changing α Unit := do
  configure d.simulation
  match d.toComponents with
  | .ok cs => loadComponents cs
  | .error e => throw (.failed e)

def start (s : Simulator α) : Simulator α := { s with running := true }

def stop (s : Simulator α) : Simulator α := { s with running := false }

def isReady (s : Simulator α) : Bool := s.equation.isSome

/-! ## Ticks -/

def solveTick (budget : Nat) (s : Simulator α) (e : Equation α) (time : α) :
    EStateM (Halt α) (NewtonSolver α SplitMix64) (List α × CircuitState α) := fun newton =>
  match s.circuit.stampTick s.settings.timestep time s.state e with
  | .error h _ => .error h newton
  | .ok companions e =>
    match e.solveWith s.circuit.nonlinear budget newton with
    | .error h newton => .error h newton
    | .ok x newton =>
      match s.circuit.deriveState (0 :: x) companions with
      | .error h => .error h newton
      | .ok state => .ok (0 :: x, state) newton

/-- Advances by one timestep. When the tick fails, only the random numbers drawn are gone. -/
def tick (budget : Nat) : Changing α Unit := fun s =>
  match s.equation with
  | none => .error (.failed .noCircuit) s
  | some e =>
    let time := s.time + s.settings.timestep
    match solveTick budget s e time s.newton with
    | .ok (solution, state) newton => .ok () { s with solution, state, time, newton }
    | .error h newton => .error h { s with newton }

def fail (s : Simulator α) (e : Failure α) : Simulator α :=
  { reset s with remaining := 0, lastError := some e }

/-- Takes ticks while enough time waits; `steps` have been taken. Returns how many were taken and
whether the last one failed. At most `ticks` are taken, each with its own `budget`. -/
def takeTicks (threshold : α) (budget : Nat) : Nat → Nat → Changing α (Nat × Bool)
  | ticks, steps => fun s =>
    if threshold ≤ s.remaining then
      match ticks with
      | 0 => .error .exhausted s
      | ticks + 1 =>
        match tick budget s with
        | .ok () s =>
          takeTicks threshold budget ticks (steps + 1)
            { s with remaining := s.remaining - s.settings.timestep }
        | .error (.failed e) s => .ok (steps, true) (s.fail e)
        | .error h s => .error h s
    else .ok (steps, false) s

/-- How much less than a timestep is enough for a tick, as a part of the timestep. -/
def slack : α := 1e-9

/-- Advances by milliseconds of real time. Returns the number of ticks taken. A stopped simulator
and one without a circuit stay as they are. -/
def advance (budget : Nat) (milliseconds : α) : Changing α Nat := fun s =>
  if s.running && s.isReady then
    let s := { s with remaining := s.remaining + milliseconds / 1000.0 * s.settings.rate }
    match takeTicks (s.settings.timestep * (1 - slack)) budget budget 0 s with
    | .ok (steps, failed) s =>
      .ok steps (if !failed && 0 < steps then { s with lastError := none } else s)
    | .error h s => .error h s
  else .ok 0 s

/-! ## Results -/

/-- The value at the node's number in the last solution, zero beyond its end. -/
def nodeVoltage (s : Simulator α) (n : Node) : α := s.solution.getD n.number.toNat 0

def maxAbsVoltage (s : Simulator α) : α :=
  (s.circuit.nonGroundNodes.map fun n => Scalar.abs (s.nodeVoltage n)).foldl Scalar.max 0

def componentState? (s : Simulator α) (id : ComponentId) : Option (ComponentState α) :=
  s.state.get? id

/-! ## Calls as data -/

inductive Call (α : Type) where
  | configure (settings : SimulatorSettings α)
  | loadCircuit (circuit : Circuit α)
  | loadComponents (components : List (Component α))
  | loadDescription (description : Description α)
  | start
  | stop
  | advance (milliseconds : α)

/-- Carries out a call. Only `advance` has something to tell: the number of ticks. -/
def perform (budget : Nat) : Call α → Changing α (Option Nat)
  | .configure settings => do
    configure settings
    return none
  | .loadCircuit c => do
    loadCircuit c
    return none
  | .loadComponents cs => do
    loadComponents cs
    return none
  | .loadDescription d => do
    loadDescription d
    return none
  | .start => do
    modify start
    return none
  | .stop => do
    modify stop
    return none
  | .advance milliseconds => do return some (← advance budget milliseconds)

end Simulator

end Nodal
