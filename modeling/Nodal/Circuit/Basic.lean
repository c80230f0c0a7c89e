import Nodal.Circuit.Component

/-! # Circuits

The components of a circuit stand in the order of their ids, and no two have the same one. Voltage
sources are numbered in that order, so the numbering depends on the ids alone. -/

namespace Nodal

structure Circuit (α : Type) where
  /-- In the order of ids. -/
  components : List (Component α)
  /-- Nodes with ground, up to the highest that a component names. -/
  numNodes : Nat
  /-- Rows for voltage sources. -/
  numSources : Nat

namespace Circuit
variable {α : Type}

/-- The circuit before one is loaded: it has no node. -/
def unloaded : Circuit α := ⟨[], 0, 0⟩

/-- Puts a component in its place; there is none when its id is taken. -/
def insert? (c : Component α) : List (Component α) → Option (List (Component α))
  | [] => some [c]
  | d :: rest =>
    if c.id.number < d.id.number then some (c :: d :: rest)
    else if c.id = d.id then none
    else (insert? c rest).map (d :: ·)

/-- Puts components in their places one after the other. -/
def arrange (cs : List (Component α)) : Except (Failure α) (List (Component α)) :=
  cs.foldlM
    (fun placed c =>
      match insert? c placed with
      | some placed => .ok placed
      | none => .error (.topology (.duplicateComponent c.id)))
    []

/-- Numbers the voltage sources, starting from `next`. -/
def numberSources (next : Nat) : List (Component α) → List (Component α)
  | [] => []
  | c :: rest =>
    if c.device.numSources = 0 then c :: numberSources next rest
    else { c with device := c.device.assignBranch ⟨next⟩ } :: numberSources (next + 1) rest

def countSources : List (Component α) → Nat
  | [] => 0
  | c :: rest => c.device.numSources + countSources rest

def countNodes (cs : List (Component α)) : Nat :=
  ((cs.flatMap Component.nodes).map Node.countTo).max?.getD 1

/-- The circuit of some components, whatever their order. -/
def ofComponents (cs : List (Component α)) : Except (Failure α) (Circuit α) := do
  let placed ← arrange cs
  return {
    components := numberSources 0 placed
    numNodes := countNodes placed
    numSources := countSources placed }

def isEmpty (c : Circuit α) : Bool := c.components.isEmpty

def get? (c : Circuit α) (id : ComponentId) : Option (Component α) :=
  c.components.find? fun d => d.id = id

def nonGroundNodes (c : Circuit α) : List Node :=
  (List.range' 1 (c.numNodes - 1)).map fun n => ⟨UInt64.ofNat n⟩

def nonlinear (c : Circuit α) : List (Component α) :=
  c.components.filter Component.isNonlinear

def hasNonlinear (c : Circuit α) : Bool := c.components.any Component.isNonlinear

theorem nonlinear_eq_nil {c : Circuit α} (h : c.hasNonlinear = false) : c.nonlinear = [] :=
  List.filter_eq_nil_iff.2 (List.any_eq_false.1 h)

end Circuit

end Nodal
