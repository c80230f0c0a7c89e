/-! # Nodes, components, branches

The numbers that a circuit file uses are machine words. Node 0 is ground and has no unknown; the
unknowns of a circuit are its other node voltages in order, then the currents of its voltage sources
in order. Counting nodes wraps around at the end of the word. -/

namespace Nodal

/-- A place where terminals meet. -/
structure Node where
  number : UInt64
  deriving DecidableEq, Repr, Inhabited

/-- The number that names a component in its circuit. -/
structure ComponentId where
  number : Nat
  deriving DecidableEq, Repr, Inhabited

/-- The position of a voltage source among the voltage sources of its circuit. -/
structure Branch where
  number : Nat
  deriving DecidableEq, Repr, Inhabited

namespace Node

/-- The node that all voltages are measured against. -/
def ground : Node := ⟨0⟩

def isGround (n : Node) : Bool := n.number == 0

/-- Position of the node's voltage among the unknowns; ground has none. -/
def row? (n : Node) : Option Nat :=
  if n.isGround then none else some (n.number.toNat - 1)

/-- How many nodes there are up to this one, ground included. The last word counts as none. -/
def countTo (n : Node) : Nat := (n.number + 1).toNat

def name (n : Node) : String :=
  if n.isGround then "GND" else "N" ++ toString n.number.toNat

end Node

def ComponentId.name (c : ComponentId) : String := "#" ++ toString c.number

def Branch.name (b : Branch) : String := "I" ++ toString b.number

inductive Unknown where
  | voltage (node : Node)
  | current (branch : Branch)
  deriving DecidableEq, Repr

/-- Position among the unknowns of a circuit with `numNodes` nodes, ground included. Branch currents
come after the node voltages. -/
def Unknown.position (numNodes : Nat) : Unknown → Nat
  | .voltage n => (n.number - 1).toNat
  | .current b => (UInt64.ofNat numNodes - 1 + UInt64.ofNat b.number).toNat

end Nodal
