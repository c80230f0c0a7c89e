import Nodal.Newton.System

/-! # Systems given by coefficients

Affine and polynomial systems in a few unknowns, with their exact slopes. -/

namespace Nodal
variable {α : Type} [Scalar α]

def NonlinearSystem.affine (a : Matrix α) (b : List α) (kind : Nat → UnknownKind) (guess : List α) :
    NonlinearSystem α where
  residual x := pure (List.zipWith (· - ·) (a.mulVec x) b)
  jacobian _ := pure a
  kind
  guess

/-- A coefficient times a power of each unknown. -/
structure Monomial (α : Type) where
  coefficient : α
  powers : List Nat

namespace Monomial

def timesPower (value v : α) : Nat → α
  | 0 => value
  | n + 1 => timesPower (value * v) v n

/-- Multiplies the coefficient by one unknown after the other. -/
def value (m : Monomial α) (x : List α) : α :=
  (m.powers.zip x).foldl (fun acc (p, v) => timesPower acc v p) m.coefficient

/-- The slope along an unknown that occurs. -/
def slope? (m : Monomial α) (j : Nat) : Option (Monomial α) :=
  match m.powers[j]? with
  | some (p + 1) =>
    some ⟨m.coefficient * Scalar.ofWord (UInt64.ofNat (p + 1)), m.powers.set j p⟩
  | _ => none

end Monomial

/-- Each equation is a sum of monomials that is zero. -/
abbrev PolynomialSystem (α : Type) := List (List (Monomial α))

namespace PolynomialSystem

def residual (s : PolynomialSystem α) (x : List α) : List α :=
  s.map fun terms => terms.foldl (fun acc m => acc + m.value x) 0

def addSlopes (x : List α) (row : Nat) (m : Monomial α) (jacobian : Matrix α) :
    Outcome α (Matrix α) :=
  (List.range m.powers.length).foldlM
    (fun jacobian j =>
      match m.slope? j with
      | some slope => jacobian.add row j (slope.value x)
      | none => pure jacobian)
    jacobian

def jacobian (s : PolynomialSystem α) (x : List α) : Outcome α (Matrix α) :=
  s.zipIdx.foldlM
    (fun jacobian (terms, row) => terms.foldlM (fun j m => addSlopes x row m j) jacobian)
    (.zeros s.length)

def toSystem (s : PolynomialSystem α) (kind : Nat → UnknownKind) (guess : List α) :
    NonlinearSystem α where
  residual x := pure (s.residual x)
  jacobian x := s.jacobian x
  kind
  guess

end PolynomialSystem

end Nodal
