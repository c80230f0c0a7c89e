import Nodal.Circuit.Connectivity
import Nodal.Newton.Solver

/-! # One tick

The static equation holds what does not change while the circuit stays the same. Each tick stamps
companions and varying sources onto it, solves the result, and derives the state of every component
from the solution. -/

namespace Nodal
variable {α ρ : Type} [Scalar α]

namespace Circuit

/-- Checks the circuit and stamps what does not change from tick to tick. -/
def staticEquation (c : Circuit α) : Outcome α (Equation α) := do
  c.validate
  let blank ← Equation.blank c.numNodes c.numSources
  match (c.components.forM Component.stamp).run blank with
  | .ok _ e => pure e
  | .error h _ => .error h

abbrev Companions (α : Type) := List (ComponentId × Companion α)

def stampOne (timestep time : α) (previous : CircuitState α) (kept : Companions α)
    (c : Component α) : Stamping α (Companions α) := do
  let made ← c.stampDynamic timestep time ((previous.get? c.id).getD .empty)
  match made with
  | some companion => return (c.id, companion) :: kept
  | none => return kept

/-- Stamps what changes from tick to tick. A component without a previous state starts from
zero. -/
def stampTick (c : Circuit α) (timestep time : α) (previous : CircuitState α) :
    Stamping α (Companions α) := do
  if Scalar.isPositive timestep then
    let kept ← c.components.foldlM (stampOne timestep time previous) []
    return kept.reverse
  else throw (.failed (.parameter "simulation" "timestep" (.notPositive timestep)))

def componentState (s : Solution α) (companions : Companions α) (c : Component α) :
    Outcome α (ComponentState α) := do
  let voltages := c.nodes.map s.voltage
  match companions.lookup c.id with
  | some companion => return ⟨voltages, ← companion.recover voltages⟩
  | none => return ⟨voltages, c.currents s⟩

/-- The state of every component after a tick. The solution starts with ground. -/
def deriveState (c : Circuit α) (solution : List α) (companions : Companions α) :
    Outcome α (CircuitState α) :=
  c.components.mapM fun d => do
    let state ← componentState ⟨solution, c.numNodes⟩ companions d
    return (d.id, state)

end Circuit

/-- Conductance from every node to ground while a nonlinear system is solved. -/
def leakage : α := 1e-12

def startingCurrent : α := 1e-4

namespace Equation

/-- What a source row says about where a node starts: half the source voltage at the node that the
row measures, minus half at the node that it measures against. -/
def seedOf (e : Equation α) (col row : Nat) : Option α :=
  let v := e.inputs.getD row 0
  if v == 0 then none
  else
    let coupling := e.admittances.cells.getD (row * e.admittances.size + col) 0
    if coupling == 1 || coupling == -1 then some (0.5 * v * coupling) else none

/-- A node starts at what the first source row says that says anything, a branch at a small
current. -/
def guess (e : Equation α) : List α :=
  let n := e.numNodeRows
  let branches := List.range' n (e.size - n)
  (List.range n).map (fun col => (branches.findSome? (e.seedOf col)).getD 0) ++
    branches.map fun _ => startingCurrent

def addLeakage (e : Equation α) (gmin : α) (x f : List α) : Outcome α (List α) :=
  (List.range e.numNodeRows).foldlM
    (fun f i =>
      match x[i]? with
      | some v =>
        if i < f.length then pure (f.modify i (· + gmin * v)) else .misuse .outOfRange
      | none => .misuse .outOfRange)
    f

/-- What the equation misses at a trial solution: in a node row the currents that leave the node,
with the nonlinear ones and the leakage; in a source row the voltage. -/
def residual (e : Equation α) (elements : List (Component α)) (gmin : α) (x : List α) :
    Outcome α (List α) := do
  let product := e.admittances.mulVec x
  let f := List.zipWith (· - ·) product e.inputs
  let f ← e.addLeakage gmin x f
  elements.foldlM (fun f c => c.addCurrents x f) f

def jacobian (e : Equation α) (elements : List (Component α)) (gmin : α) (x : List α) :
    Outcome α (Matrix α) := do
  let m ← (List.range e.numNodeRows).foldlM (fun m i => m.add i i gmin) e.admittances
  elements.foldlM (fun m c => c.addSlopes x m) m

def toSystem (e : Equation α) (elements : List (Component α)) (gmin : α) : NonlinearSystem α where
  residual := e.residual elements gmin
  jacobian := e.jacobian elements gmin
  kind i := if i < e.numNodeRows then .voltage else .current
  guess := e.guess

variable [RandomSource ρ α]

/-- Solves an equation: at once when there are no nonlinear elements, by iteration otherwise. -/
def solveWith (e : Equation α) (elements : List (Component α)) (budget : Nat) :
    EStateM (Halt α) (NewtonSolver α ρ) (List α) := fun solver =>
  if elements.isEmpty then
    match e.solve with
    | .ok x => .ok x solver
    | .error h => .error h solver
  else
    match NewtonSolver.solve (e.toSystem elements leakage) budget solver with
    | .ok solution solver => .ok solution.x solver
    | .error h solver => .error h solver

end Equation

end Nodal
