import Nodal.Scalar
import Nodal.Ident
import Nodal.Kind
import Nodal.Decimal.Notation

/-! # What can go wrong

Errors are causes; their wording is one function, `Failure.message`. A computation that ends without
a result either met an error, which its caller handles, or was asked for something that has no
answer, such as a cell outside of a matrix, or ran out of its budget of rounds. -/

namespace Nodal

inductive TopologyFault where
  | tooFewNodes (found : Nat)
  | duplicateComponent (id : ComponentId)
  | terminalCount (id : ComponentId) (kind : Kind) (found : Nat)
  | unassignedBranch (component : String)
  | described (text : String)
  deriving DecidableEq, Repr

inductive ParameterFault (α : Type) where
  | notPositive (value : α)
  | badResistance (value : α)
  | notFinite (value : α)
  | negative (value : α)
  | described (text : String)
  deriving Repr

inductive SettingFault (α : Type) where
  | notPositive (setting : String) (value : α)
  | shrinkOutOfRange (value : α)
  | noAttempts
  | frameLength
  | described (text : String)
  deriving Repr

inductive ParseFault where
  | malformed
  | missing (field : String)
  | repeated (field : String)
  | unexpected (field : String)
  deriving DecidableEq, Repr

/-- An error that a caller can handle. -/
inductive Failure (α : Type) where
  | noCircuit
  /-- A node without a path to ground. -/
  | floatingNode (node : Node)
  | topology (fault : TopologyFault)
  | parameter (component parameter : String) (fault : ParameterFault α)
  /-- More voltage sources than the equation has rows for. -/
  | sourceOverflow (declared : Nat)
  | singularMatrix
  /-- No attempt converged. The residual is the smallest that any attempt met, none when no attempt
  met a finite one. -/
  | noConvergence (restarts : Nat) (residual : Option α)
  | setting (fault : SettingFault α)
  | fileRead (path cause : String)
  | parse (fault : ParseFault)
  deriving Repr

/-- A request that has no answer. -/
inductive Misuse where
  | outOfRange
  | notSquare
  | emptyRange
  | tooManyNodes
  deriving DecidableEq, Repr

/-- How a computation ends without a result. -/
inductive Halt (α : Type) where
  | failed (f : Failure α)
  | misuse (m : Misuse)
  | exhausted
  deriving Repr

/-- A result, or how the computation ended without one. -/
abbrev Outcome (α β : Type) := Except (Halt α) β

namespace Outcome
variable {α β : Type}

def fail (f : Failure α) : Outcome α β := .error (.failed f)

def misuse (m : Misuse) : Outcome α β := .error (.misuse m)

end Outcome

namespace Failure
variable {α : Type}

/-- Errors of the circuit itself: they stay until it is replaced. -/
def isStructural : Failure α → Bool
  | noCircuit | floatingNode _ | topology _ => true
  | _ => false

/-- Errors of one solve. -/
def isSolverFailure : Failure α → Bool
  | singularMatrix | noConvergence _ _ => true
  | _ => false

end Failure

/-- The smallest circuit that can be solved has ground and one more node. -/
def minNodes : Nat := 2

/-! ## Wording -/

namespace TopologyFault

def message : TopologyFault → String
  | tooFewNodes found =>
    "Number of nodes must be >= " ++ toString minNodes ++ ", was: " ++ toString found
  | duplicateComponent id => "duplicate component id " ++ id.name
  | terminalCount id kind found =>
    "component " ++ id.name ++ " (" ++ kind.name ++ ") needs " ++ toString kind.terminals ++
      " nodes, got " ++ toString found
  | unassignedBranch component => "no voltage source index assigned to '" ++ component ++ "'"
  | described text => text

end TopologyFault

def valueText (x : Float) : String := (Binary64.ofFloat x).positional

namespace ParameterFault

def message : ParameterFault Float → String
  | notPositive v => "must be > 0, was: " ++ valueText v
  | badResistance v => "Resistance must be > 0, was: " ++ valueText v
  | notFinite v => "must be finite, was: " ++ valueText v
  | negative v => "must be >= 0, was: " ++ valueText v
  | described text => text

end ParameterFault

namespace SettingFault

def message : SettingFault Float → String
  | notPositive setting v => setting ++ " must be > 0, was: " ++ valueText v
  | shrinkOutOfRange v => "alpha_shrink must be in (0, 1), was: " ++ valueText v
  | noAttempts => "max_iterations and max_restarts must be at least 1"
  | frameLength => "frame-ms must be > 0"
  | described text => text

end SettingFault

namespace ParseFault

def message : ParseFault → String
  | malformed => "not a JSON document"
  | missing field => "missing field " ++ field
  | repeated field => "repeated field " ++ field
  | unexpected field => "unexpected value for " ++ field

end ParseFault

/-- A residual inside a message: two places. -/
def residualText : Option Float → String
  | none => "inf"
  | some r => (Binary64.ofFloat r).scientificTo 2 false

def Failure.message : Failure Float → String
  | noCircuit => "No circuit"
  | floatingNode node => "Floating node '" ++ node.name ++ "' detected - no path to ground"
  | topology fault => "Invalid circuit topology: " ++ fault.message
  | parameter component name fault =>
    "Invalid parameter '" ++ name ++ "' for component '" ++ component ++ "': " ++ fault.message
  | sourceOverflow declared =>
    "Already stamped declared number of voltage sources (" ++ toString declared ++ ")"
  | singularMatrix => "Singular matrix - circuit may have a short circuit or floating node"
  | noConvergence restarts residual =>
    "Newton-Raphson did not converge after " ++ toString restarts ++
      " restarts (best residual: " ++ residualText residual ++ ")"
  | setting fault => "Invalid simulation parameter: " ++ fault.message
  | fileRead path cause => "Failed to read circuit file '" ++ path ++ "': " ++ cause
  | parse fault => "Failed to parse circuit description: " ++ fault.message

end Nodal
