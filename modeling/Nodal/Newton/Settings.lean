import Nodal.Failure

/-! # Settings of the Newton solver -/

namespace Nodal

/-- What an attempt may do, and when it is over. -/
structure NewtonSettings (α : Type) where
  maxIterations : Nat
  /-- A residual below this length counts as zero. -/
  tolerance : α
  /-- Attempts, with the first. -/
  maxRestarts : Nat
  /-- The step scale of a new attempt, and its upper bound. -/
  initialAlpha : α
  alphaGrowth : α
  /-- Shrinks the step scale while a step does not improve. -/
  alphaShrink : α
  /-- A step scale that is not above this one is not shrunk. -/
  minAlpha : α
  /-- The size of a perturbation against the entry that it changes. -/
  randomScale : α
  /-- Smaller entries on the diagonal of a Jacobian are replaced. -/
  stabilityEps : α
  maxVoltageStep : α
  maxCurrentStep : α
  deriving Repr

namespace NewtonSettings
variable {α : Type} [Scalar α]

def standard : NewtonSettings α :=
  { maxIterations := 100
    tolerance := 1e-6
    maxRestarts := 20
    initialAlpha := 1
    alphaGrowth := 1.1
    alphaShrink := 0.5
    minAlpha := 1e-6
    randomScale := 0.05
    stabilityEps := 1e-9
    maxVoltageStep := 0.5
    maxCurrentStep := 0.05 }

/-- The settings that must be above zero, in the order in which they are checked. -/
def positives (s : NewtonSettings α) : List (String × α) :=
  [("tolerance", s.tolerance), ("initial_alpha", s.initialAlpha), ("min_alpha", s.minAlpha),
    ("stability_eps", s.stabilityEps), ("max_voltage_step", s.maxVoltageStep),
    ("max_current_step", s.maxCurrentStep)]

def validate (s : NewtonSettings α) : Except (Failure α) Unit :=
  match s.positives.find? fun (_, v) => !Scalar.isPositive v with
  | some (name, v) => .error (.setting (.notPositive name v))
  | none =>
    if ¬(0 < s.alphaShrink ∧ s.alphaShrink < 1) then
      .error (.setting (.shrinkOutOfRange s.alphaShrink))
    else if s.maxIterations = 0 ∨ s.maxRestarts = 0 then .error (.setting .noAttempts)
    else .ok ()

end NewtonSettings

end Nodal
