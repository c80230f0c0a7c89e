import Nodal.Circuit.Basic

/-! # Connection to ground

A node is connected to ground when a chain of components leads there, whatever they are. Every node
up to the highest must be connected, also those that no component names. -/

namespace Nodal

namespace Circuit

def touches (reached group : List Node) : Bool := group.any fun n => reached.contains n

def near (groups : List (List Node)) (reached : List Node) : List (List Node) :=
  groups.filter (touches reached)

def far (groups : List (List Node)) (reached : List Node) : List (List Node) :=
  groups.filter fun g => !touches reached g

/-- Adds to the reached nodes all those that share a group with one of them, and goes on until no
group is left that has a reached node. Each round but the last uses up a group. -/
def spread : Nat → List (List Node) → List Node → List Node
  | 0, _, reached => reached
  | rounds + 1, groups, reached =>
    if (near groups reached).isEmpty then reached
    else spread rounds (far groups reached) (reached ++ (near groups reached).flatten)

/-- The nodes that a chain of groups joins to some of the given ones. -/
def reachable (groups : List (List Node)) (reached : List Node) : List Node :=
  spread groups.length groups reached

variable {α : Type}

def grounded (c : Circuit α) : List Node :=
  reachable (c.components.map Component.nodes) [.ground]

/-- The lowest node that is not connected to ground. Among as many nodes as are connected there is
always one that is not. -/
def floating? (c : Circuit α) : Option Node :=
  let reached := c.grounded
  ((List.range' 1 (min (c.numNodes - 1) (reached.length + 1))).map fun n =>
    (⟨UInt64.ofNat n⟩ : Node)).find? fun n => !reached.contains n

/-- More nodes than these, with 24 bytes for each, need more bytes than memory can have. -/
def nodeLimit : Nat := 0x7fffffffffffffff / 24

/-- Refuses a circuit that cannot be solved: one without components, one with too few nodes, one
with a node that is not connected to ground, in this order. A node beyond the count, which happens
when the count has wrapped around, has no place in the tables. -/
def validate (c : Circuit α) : Outcome α Unit :=
  if c.isEmpty then .fail .noCircuit
  else if c.numNodes < minNodes then .fail (.topology (.tooFewNodes c.numNodes))
  else if nodeLimit < c.numNodes then .misuse .tooManyNodes
  else if (c.components.flatMap Component.nodes).any fun n => c.numNodes ≤ n.number.toNat then
    .misuse .outOfRange
  else
    match c.floating? with
    | some n => .fail (.floatingNode n)
    | none => pure ()

end Circuit

end Nodal
