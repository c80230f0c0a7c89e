import Nodal.Failure

/-! # Voltages and currents after a tick

A solution lists the node voltages, ground first, then the currents of the voltage sources. The
state of a component lists the voltages of its nodes and the currents of its paths. -/

namespace Nodal
variable {α : Type}

/-- A solution of a circuit with `numNodes` nodes, ground included. -/
structure Solution (α : Type) where
  values : List α
  numNodes : Nat

namespace Solution
variable [Scalar α]

/-- The value at the node's number, zero beyond the end. -/
def voltage (s : Solution α) (n : Node) : α := s.values.getD n.number.toNat 0

/-- The value behind the node voltages at the branch's number, zero beyond the end. -/
def branchCurrent (s : Solution α) (b : Branch) : α :=
  s.values.getD (((Unknown.current b).position s.numNodes + 1) % UInt64.size) 0

end Solution

/-- What a component shows after a tick. -/
structure ComponentState (α : Type) where
  /-- One for each node, in the component's order. -/
  voltages : List α
  /-- One for each path. -/
  currents : List α
  deriving BEq, Repr

namespace ComponentState
variable [Scalar α]

def empty : ComponentState α := ⟨[], []⟩

def zeroed (numVoltages numCurrents : Nat) : ComponentState α :=
  ⟨List.replicate numVoltages 0, List.replicate numCurrents 0⟩

/-- Voltage of the first node against the second. -/
def voltageAcross (s : ComponentState α) : α :=
  match s.voltages with
  | v :: w :: _ => v - w
  | _ => 0

def current (s : ComponentState α) : α := s.currents.headD 0

end ComponentState

abbrev CircuitState (α : Type) := List (ComponentId × ComponentState α)

def CircuitState.get? (s : CircuitState α) (id : ComponentId) : Option (ComponentState α) :=
  s.lookup id

end Nodal
