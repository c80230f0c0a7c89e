import Nodal.Linear.Elimination
import Nodal.Newton.Settings
import Nodal.Newton.System
import Nodal.Random

/-! # Damped Newton iteration

An attempt follows the Newton step, cut to a longest step for each unknown and scaled down until the
residual shrinks. When no scale helps, the iterate is perturbed. An attempt that fails is repeated
from a perturbed start. Each attempt remembers the best iterate it has seen; a near miss at the end
of an attempt is good enough.

The iteration is written for any monads that residuals can be evaluated and numbers drawn in
(`Runner`). The solver is its plain run. -/

namespace Nodal

/-- A source of random numbers with the count of those drawn from it. -/
structure Draws (ρ : Type) where
  source : ρ
  count : Nat
  deriving Repr

abbrev Drawing (α ρ β : Type) := EStateM (Halt α) (Draws ρ) β

def Drawing.ofOutcome {α ρ β : Type} : Outcome α β → Drawing α ρ β
  | .ok v => pure v
  | .error h => throw h

structure NewtonSolution (α : Type) where
  x : List α
  residual : α
  /-- Rounds of the attempt that succeeded. -/
  iterations : Nat
  /-- Attempts that failed before it. -/
  restarts : Nat
  deriving Repr

structure Iterate (α : Type) where
  x : List α
  alpha : α
  /-- The smallest finite residual so far, with its iterate. -/
  best : Option (α × List α)

inductive Progress (α : Type) where
  | converged (x : List α) (residual : α)
  | stuck (best : Option (α × List α))
  | moved (next : Iterate α)

inductive Attempt (α : Type) where
  | converged (x : List α) (residual : α) (iterations : Nat)
  | failed (best : Option α)

structure Trial (α : Type) where
  alpha : α
  x : List α
  residual : α

namespace Newton

/-- The monads that an iteration runs in: residuals are evaluated in `e`, and all else is done in
`m`. -/
structure Runner (α ρ : Type) (e m : Type → Type) where
  residual : List α → e (List α)
  lift : {β : Type} → e β → m β
  draw : {β : Type} → Drawing α ρ β → m β

/-- Residuals are those of the system, and draws are made. -/
def Runner.plain {α ρ : Type} (system : NonlinearSystem α) :
    Runner α ρ (Outcome α) (EStateM (Halt α) (Draws ρ)) where
  residual := system.residual
  lift := Drawing.ofOutcome
  draw m := m

variable {α ρ : Type} [Scalar α]

/-- Cuts a step to a longest one, which must not be below zero. -/
def clampStep (longest step : α) : Outcome α α :=
  if -longest ≤ longest then
    pure (if step < -longest then -longest else if longest < step then longest else step)
  else .misuse .emptyRange

def longestStep (s : NewtonSettings α) : UnknownKind → α
  | .voltage => s.maxVoltageStep
  | .current => s.maxCurrentStep

def clampSteps (s : NewtonSettings α) (system : NonlinearSystem α) (steps : List α) :
    Outcome α (List α) :=
  steps.zipIdx.mapM fun (d, i) => clampStep (longestStep s (system.kind i)) d

/-- Replaces an entry too near to zero, and keeps its sign. -/
def stabilize (eps d : α) : α :=
  if Scalar.abs d < eps then (if d < 0 then -eps else eps) else d

def scaledStep (x dx : List α) (alpha : α) : List α :=
  List.zipWith (fun v d => v + alpha * d) x dx

def residualNorm (system : NonlinearSystem α) (x : List α) : Outcome α α := do
  let f ← system.residual x
  return Scalar.norm f

section Search
variable {e : Type → Type} [Monad e] [MonadExceptOf (Halt α) e] (residual : List α → e (List α))

@[specialize]
def trialAtM (x dx : List α) (alpha : α) : e (Trial α) := do
  let x := scaledStep x dx alpha
  let f ← residual x
  return ⟨alpha, x, Scalar.norm f⟩

/-- Shrinks the step until the residual is below `error` or the scale is small enough. -/
@[specialize]
def lineSearchM (s : NewtonSettings α) (x dx : List α) (error : α) : Nat → Trial α → e (Trial α)
  | budget, t =>
    if ¬t.residual < error ∧ s.minAlpha < t.alpha then
      match budget with
      | 0 => throw .exhausted
      | budget + 1 => do
        let t ← trialAtM residual x dx (t.alpha * s.alphaShrink)
        lineSearchM s x dx error budget t
    else pure t

end Search

def trialAt (system : NonlinearSystem α) (x dx : List α) (alpha : α) : Outcome α (Trial α) :=
  trialAtM system.residual x dx alpha

def lineSearch (s : NewtonSettings α) (system : NonlinearSystem α) (x dx : List α) (error : α) :
    Nat → Trial α → Outcome α (Trial α) :=
  lineSearchM system.residual s x dx error

def improves (error : α) : Option α → Bool
  | none => Scalar.isFinite error
  | some best => error < best

def record (it : Iterate α) (error : α) : Option (α × List α) :=
  if improves error (it.best.map Prod.fst) then some (error, it.x) else it.best

section Draw
variable [RandomSource ρ α]

/-- Moves every entry at random, by at most half the scale of perturbations times its size. An entry
of zero counts as a tenth. -/
def perturb (s : NewtonSettings α) : List α → Draws ρ → List α × Draws ρ
  | [], d => ([], d)
  | v :: rest, d =>
    let size := if v == 0 then 0.1 else Scalar.abs v
    let (j, source) := RandomSource.jitter d.source
    let (rest, d) := perturb s rest ⟨source, d.count + 1⟩
    ((v + j * size * s.randomScale) :: rest, d)

/-- An iterate moved at random, with its effect on the drawing. -/
def perturbed (s : NewtonSettings α) (x : List α) : Drawing α ρ (List α) := fun d =>
  let (x, d) := perturb s x d
  .ok x d

/-- The Newton step at an iterate, cut to the longest steps; none when the slopes do not determine
it. -/
def newtonStep? (s : NewtonSettings α) (system : NonlinearSystem α) (x f : List α) :
    Outcome α (Option (List α)) := do
  let jacobian ← system.jacobian x
  match (jacobian.mapDiagonal (stabilize s.stabilityEps)).solve (f.map (- ·)) with
  | .ok dx => return some (← clampSteps s system dx)
  | .error (.failed _) => return none
  | .error h => .error h

def settle (s : NewtonSettings α) (best : Option (α × List α)) : Attempt α :=
  match best with
  | none => .failed none
  | some (residual, x) =>
    if residual < s.tolerance * 10.0 then .converged x residual s.maxIterations
    else .failed (some residual)

/-- The smaller of two residuals, none being larger than all. -/
def bestOf (best : Option α) : Option α → Option α
  | none => best
  | some r => if improves r best then some r else best

section Run
variable {e m : Type → Type} [Monad e] [MonadExceptOf (Halt α) e] [Monad m]
  [MonadExceptOf (Halt α) m] (r : Runner α ρ e m)

@[specialize]
def roundM (s : NewtonSettings α) (system : NonlinearSystem α) (budget : Nat) (it : Iterate α) :
    m (Progress α) := do
  let f ← r.lift (r.residual it.x)
  let error := Scalar.norm f
  let best := record it error
  if error < s.tolerance then return .converged it.x error
  if !Scalar.isFinite error then return .stuck best
  match ← r.draw (Drawing.ofOutcome (newtonStep? s system it.x f)) with
  | none => return .stuck best
  | some dx =>
    let first ← r.lift (trialAtM r.residual it.x dx it.alpha)
    let trial ← r.lift (lineSearchM r.residual s it.x dx error budget first)
    if trial.residual < error then
      return .moved ⟨trial.x, Scalar.min s.initialAlpha (trial.alpha * s.alphaGrowth), best⟩
    else
      return .moved ⟨← r.draw (perturbed s it.x), s.initialAlpha, best⟩

@[specialize]
def attemptM (s : NewtonSettings α) (system : NonlinearSystem α) (budget : Nat) :
    Nat → Iterate α → m (Attempt α)
  | 0, it => return settle s it.best
  | rounds + 1, it => do
    match ← roundM r s system budget it with
    | .converged x residual => return .converged x residual (s.maxIterations - (rounds + 1))
    | .stuck best => return settle s best
    | .moved next => attemptM s system budget rounds next

/-- An attempt starts at the guess itself at first, then at the guess moved at random. -/
def startM (s : NewtonSettings α) (system : NonlinearSystem α) (restarts : Nat) : m (List α) :=
  if restarts = 0 then pure system.guess else r.draw (perturbed s system.guess)

/-- Makes a number of attempts; `restarts` of them have failed before. -/
@[specialize]
def attemptsM (s : NewtonSettings α) (system : NonlinearSystem α) (budget : Nat) :
    Nat → Nat → Option α → m (NewtonSolution α)
  | 0, _, best => throw (.failed (.noConvergence s.maxRestarts best))
  | left + 1, restarts, best => do
    let start ← startM r s system restarts
    match ← attemptM r s system budget s.maxIterations ⟨start, s.initialAlpha, none⟩ with
    | .converged x residual iterations => return { x, residual, iterations, restarts }
    | .failed residual => attemptsM s system budget left (restarts + 1) (bestOf best residual)

/-- Solves a system from its guess. The budget bounds every line search. -/
def solveM (s : NewtonSettings α) (system : NonlinearSystem α) (budget : Nat) :
    m (NewtonSolution α) :=
  attemptsM r s system budget s.maxRestarts 0 none

end Run

section Plain
variable (s : NewtonSettings α) (system : NonlinearSystem α) (budget : Nat)

def round : Iterate α → Drawing α ρ (Progress α) := roundM (.plain system) s system budget

def attempt : Nat → Iterate α → Drawing α ρ (Attempt α) := attemptM (.plain system) s system budget

def attemptFrom (x : List α) : Drawing α ρ (Attempt α) :=
  attempt s system budget s.maxIterations ⟨x, s.initialAlpha, none⟩

def attempts : Nat → Nat → Option α → Drawing α ρ (NewtonSolution α) :=
  attemptsM (.plain system) s system budget

def solve : Drawing α ρ (NewtonSolution α) := solveM (.plain system) s system budget

end Plain

end Draw

end Newton

structure NewtonSolver (α ρ : Type) where
  settings : NewtonSettings α
  draws : Draws ρ

namespace NewtonSolver
variable {α ρ : Type} [Scalar α] [RandomSource ρ α]

def ofSource (settings : NewtonSettings α) (source : ρ) : NewtonSolver α ρ :=
  ⟨settings, source, 0⟩

/-- Solves a system; the numbers drawn are gone, also when no solution is found. -/
def solve (system : NonlinearSystem α) (budget : Nat) :
    EStateM (Halt α) (NewtonSolver α ρ) (NewtonSolution α) := fun solver =>
  match Newton.solve solver.settings system budget solver.draws with
  | .ok solution draws => .ok solution { solver with draws }
  | .error h draws => .error h { solver with draws }

end NewtonSolver

end Nodal
