import Nodal.Newton.Polynomial
import Nodal.Proofs.Outcomes
import Nodal.Transient.Assembly

/-! # Systems without errors

The equation of a tick and a system of polynomials can be evaluated anywhere: what a caller has to
handle comes from the solver alone. -/

namespace Nodal

/-- A system that gives no error of its own. -/
structure NonlinearSystem.Infallible {α : Type} (system : NonlinearSystem α) : Prop where
  residual : ∀ x, Outcome.Unfailing (system.residual x)
  jacobian : ∀ x, Outcome.Unfailing (system.jacobian x)

open Outcome
variable {α : Type} [Scalar α]

theorem Matrix.unfailing_modify {α : Type} (m : Matrix α) (r c : Nat) (f : α → α) :
    Unfailing (m.modify r c f) := by
  unfold Matrix.modify
  split
  · exact unfailing_ok _
  · exact unfailing_misuse _

theorem Matrix.unfailing_addNodes (m : Matrix α) (a b : Node) (v : α) :
    Unfailing (m.addNodes a b v) := by
  unfold Matrix.addNodes
  split
  · exact m.unfailing_modify _ _ _
  · exact unfailing_ok _

theorem unfailing_nodeVoltage (x : List α) (n : Node) : Unfailing (nodeVoltage x n) := by
  unfold nodeVoltage
  split
  · exact unfailing_ok _
  · split
    · exact unfailing_ok _
    · exact unfailing_misuse _

theorem unfailing_modifyNode {α : Type} (xs : List α) (n : Node) (f : α → α) :
    Unfailing (modifyNode xs n f) := by
  unfold modifyNode
  split
  · exact unfailing_ok _
  · split
    · exact unfailing_ok _
    · exact unfailing_misuse _

namespace Component

theorem unfailing_pairVoltage (x : List α) (a b : Node) : Unfailing (pairVoltage x a b) :=
  (unfailing_nodeVoltage x a).bind fun _ => (unfailing_nodeVoltage x b).bind fun _ =>
    unfailing_ok _

theorem unfailing_pointAt (x : List α) (drain gate source : Node) (channel : Channel)
    (params : MosfetParams α) : Unfailing (pointAt x drain gate source channel params) :=
  (unfailing_nodeVoltage x drain).bind fun _ => (unfailing_nodeVoltage x gate).bind fun _ =>
    (unfailing_nodeVoltage x source).bind fun _ => unfailing_ok _

theorem unfailing_addCurrents (d : Component α) (x f : List α) : Unfailing (d.addCurrents x f) := by
  unfold addCurrents
  split
  · exact (unfailing_pairVoltage _ _ _).bind fun _ => (unfailing_modifyNode _ _ _).bind fun _ =>
      unfailing_modifyNode _ _ _
  · exact (unfailing_pointAt _ _ _ _ _ _).bind fun _ => (unfailing_modifyNode _ _ _).bind fun _ =>
      unfailing_modifyNode _ _ _
  · exact unfailing_ok _

theorem unfailing_addSlope (m : Matrix α) (drain source along : Node) (g : α) :
    Unfailing (addSlope m drain source along g) :=
  (m.unfailing_addNodes _ _ _).bind fun m => m.unfailing_addNodes _ _ _

theorem unfailing_addSlopes (d : Component α) (x : List α) (m : Matrix α) :
    Unfailing (d.addSlopes x m) := by
  unfold addSlopes
  split
  · exact (unfailing_pairVoltage _ _ _).bind fun _ => (m.unfailing_addNodes _ _ _).bind fun m =>
      (m.unfailing_addNodes _ _ _).bind fun m => (m.unfailing_addNodes _ _ _).bind fun m =>
        m.unfailing_addNodes _ _ _
  · exact (unfailing_pointAt _ _ _ _ _ _).bind fun _ => (unfailing_addSlope m _ _ _ _).bind fun m =>
      (unfailing_addSlope m _ _ _ _).bind fun m => unfailing_addSlope m _ _ _ _
  · exact unfailing_ok _

end Component

/-- The equation of a tick is a system that gives no error. -/
theorem Equation.infallible_toSystem (e : Equation α) (elements : List (Component α)) (gmin : α) :
    (e.toSystem elements gmin).Infallible where
  residual x := by
    have hleak : ∀ f, Unfailing (e.addLeakage gmin x f) := by
      refine unfailing_foldlM (fun f i => ?_) _
      split
      · split
        · exact unfailing_ok _
        · exact unfailing_misuse _
      · exact unfailing_misuse _
    exact (hleak _).bind fun f => unfailing_foldlM (fun f d => d.unfailing_addCurrents x f) _ _
  jacobian x :=
    (unfailing_foldlM (fun m i => m.unfailing_modify i i _) _ _).bind fun m =>
      unfailing_foldlM (fun m d => d.unfailing_addSlopes x m) _ _

/-- So is a system of polynomials. -/
theorem PolynomialSystem.infallible_toSystem (s : PolynomialSystem α) (kind : Nat → UnknownKind)
    (guess : List α) : (s.toSystem kind guess).Infallible where
  residual x := unfailing_ok _
  jacobian x := by
    have hslopes : ∀ (m : Monomial α) row j, Unfailing (PolynomialSystem.addSlopes x row m j) := by
      intro m row j
      refine unfailing_foldlM (fun j i => ?_) _ j
      split
      · exact j.unfailing_modify _ _ _
      · exact unfailing_ok _
    exact unfailing_foldlM (fun m (p : List (Monomial α) × Nat) =>
      unfailing_foldlM (fun j t => hslopes t p.2 j) _ m) _ _

end Nodal
