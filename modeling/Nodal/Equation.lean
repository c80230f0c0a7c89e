import Nodal.Linear.Elimination

/-! # Nodal equations

The linear system of a circuit: a row for each node but ground, which says that the currents leaving
the node add up to what sources push into it, then a row for each voltage source, which says what
voltage it keeps. The unknowns are the node voltages and the source currents. Stamps add to cells
and never replace them, so elements may be stamped in any order. -/

namespace Nodal

/-- The system `admittances * x = inputs`. -/
structure Equation (α : Type) where
  admittances : Matrix α
  inputs : List α
  /-- Nodes with ground. -/
  numNodes : Nat
  numSources : Nat
  /-- Voltage sources stamped so far. -/
  numStamped : Nat

/-- A computation that writes into an equation; the equation survives an error. -/
abbrev Stamping (α β : Type) := EStateM (Halt α) (Equation α) β

namespace Equation
variable {α : Type}

def size (e : Equation α) : Nat := e.inputs.length

def numNodeRows (e : Equation α) : Nat := e.numNodes - 1

def branchRow (e : Equation α) (b : Branch) : Nat := (Unknown.current b).position e.numNodes

/-- The matrix of a system of this size, with 8 bytes for each cell, has more bytes than memory can
have. -/
def sizeLimit : Nat := 0x40000000

variable [Scalar α]

/-- The equation with nothing stamped. -/
def blank (numNodes numSources : Nat) : Outcome α (Equation α) :=
  if numNodes < minNodes then .fail (.topology (.tooFewNodes numNodes))
  else
    let size := numNodes - 1 + numSources
    if sizeLimit ≤ size then .misuse .tooManyNodes
    else pure {
      admittances := .zeros size
      inputs := List.replicate size 0
      numNodes
      numSources
      numStamped := 0 }

def solve (e : Equation α) : Outcome α (List α) := e.admittances.solve e.inputs

/-! ## Stamps -/

/-- Adds to a cell; ground has neither row nor column. -/
def addCell (row col : Option Nat) (v : α) : Stamping α Unit := fun e =>
  match row, col with
  | some r, some c =>
    match e.admittances.add r c v with
    | .ok m => .ok () { e with admittances := m }
    | .error h => .error h e
  | _, _ => .ok () e

/-- Adds to an input; ground has none. -/
def addInput (row : Option Nat) (v : α) : Stamping α Unit := fun e =>
  match row with
  | none => .ok () e
  | some r =>
    if r < e.inputs.length then .ok () { e with inputs := e.inputs.modify r (· + v) }
    else .error (.misuse .outOfRange) e

def stampConductance (g : α) (a b : Node) : Stamping α Unit := do
  addCell a.row? a.row? g
  addCell b.row? b.row? g
  addCell a.row? b.row? (-g)
  addCell b.row? a.row? (-g)

/-- A resistance between two nodes, above zero and finite. -/
def stampResistor (r : α) (a b : Node) : Stamping α Unit :=
  if Scalar.isPositive r then stampConductance (1 / r) a b
  else throw (.failed (.parameter "resistor" "resistance" (.badResistance r)))

/-- Takes the row of a voltage source, while there are rows left. -/
def claimBranch (b : Branch) : Stamping α Nat := fun e =>
  if e.numSources ≤ e.numStamped ∨ e.numSources ≤ b.number then
    .error (.failed (.sourceOverflow e.numSources)) e
  else .ok (e.branchRow b) { e with numStamped := e.numStamped + 1 }

/-- Lets the current of a row flow from `a` to `b`, and the row measure the voltage of `b` against
`a`. -/
def stampCoupling (row : Nat) (a b : Node) : Stamping α Unit := do
  addCell (some row) a.row? (-1)
  addCell (some row) b.row? 1
  addCell a.row? (some row) 1
  addCell b.row? (some row) (-1)

/-- A voltage source that keeps `b` at `v` above `a`. Its current flows from `a` to `b` through the
source. Returns its row. -/
def stampVoltageSource (v : α) (a b : Node) (branch : Branch) : Stamping α Nat := do
  let row ← claimBranch branch
  stampCoupling row a b
  addInput (some row) v
  return row

/-- A current source that draws from `a` and pushes into `b`. -/
def stampCurrentSource (i : α) (a b : Node) : Stamping α Unit := do
  addInput a.row? (-i)
  addInput b.row? i

/-- A voltage source that keeps `outA` above `outB` by `gain` times what `inA` is above `inB`.
Returns its row. -/
def stampControlledSource (gain : α) (outA outB inA inB : Node) (branch : Branch) :
    Stamping α Nat := do
  let row ← claimBranch branch
  stampCoupling row outB outA
  addCell (some row) inA.row? (-gain)
  addCell (some row) inB.row? gain
  return row

end Equation

inductive Stamp (α : Type) where
  | conductance (g : α) (a b : Node)
  | resistor (r : α) (a b : Node)
  | voltageSource (v : α) (a b : Node) (branch : Branch)
  | currentSource (i : α) (a b : Node)
  | controlledSource (gain : α) (outA outB inA inB : Node) (branch : Branch)

/-- Carries out a stamp; a source tells its row. -/
def Stamp.apply {α : Type} [Scalar α] : Stamp α → Stamping α (Option Nat)
  | .conductance g a b => do
    Equation.stampConductance g a b
    return none
  | .resistor r a b => do
    Equation.stampResistor r a b
    return none
  | .voltageSource v a b branch => do return some (← Equation.stampVoltageSource v a b branch)
  | .currentSource i a b => do
    Equation.stampCurrentSource i a b
    return none
  | .controlledSource gain outA outB inA inB branch => do
    return some (← Equation.stampControlledSource gain outA outB inA inB branch)

end Nodal
