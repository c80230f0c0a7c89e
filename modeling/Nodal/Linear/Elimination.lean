import Nodal.Linear.Matrix

/-! # Elimination with partial pivoting

A system is a list of rows. One round picks the row with the largest leading coefficient, takes its
leading unknown out of the others, solves what remains, and finds the leading unknown from the row
it picked. A row whose right-hand side is missing may take part as long as its right-hand side is
not needed. -/

namespace Nodal

/-- One equation of a linear system: coefficients and right-hand side. -/
structure Row (α : Type) where
  coeffs : List α
  rhs : Option α

namespace Row
variable {α : Type} [Scalar α]

def lead (r : Row α) : α := r.coeffs.headD 0

def tail (r : Row α) : List α := r.coeffs.tail

/-- Pairs the rows of a matrix with right-hand sides, as far as these reach. -/
def zip : List (List α) → List α → List (Row α)
  | [], _ => []
  | r :: rs, [] => ⟨r, none⟩ :: zip rs []
  | r :: rs, b :: bs => ⟨r, some b⟩ :: zip rs bs

/-- Takes the leading unknown out of `r` with the help of the pivot row `p`. A row that does not
mention it stays as it is. -/
def reduce (p r : Row α) : Outcome α (Row α) :=
  let factor := r.lead / p.lead
  if factor == 0 then pure ⟨r.tail, r.rhs⟩
  else
    match r.rhs, p.rhs with
    | some s, some t =>
      pure ⟨List.zipWith (fun a b => a + -factor * b) r.tail p.tail, some (s - factor * t)⟩
    | _, _ => .misuse .outOfRange

/-- Position and size of the largest leading coefficient; of equal ones, the first. -/
def largestLead (first : Row α) (rest : List (Row α)) : Nat × α :=
  (rest.zipIdx 1).foldl
    (fun best (r, i) => if best.2 < Scalar.abs r.lead then (i, Scalar.abs r.lead) else best)
    (0, Scalar.abs first.lead)

/-- Exchanges the first row with the one at a position. -/
def exchange (first : Row α) (rest : List (Row α)) : Nat → Outcome α (Row α × List (Row α))
  | 0 => pure (first, rest)
  | j + 1 =>
    match rest[j]? with
    | none => .misuse .outOfRange
    | some r =>
      if first.rhs.isSome && r.rhs.isSome then pure (r, rest.set j first)
      else .misuse .outOfRange

/-- Coefficients smaller than this are no pivots. -/
def pivotThreshold : α := 1e-15

/-- Solves a system of `n` rows with `n` coefficients each. -/
def solve : Nat → List (Row α) → Outcome α (List α)
  | 0, _ => pure []
  | _ + 1, [] => pure []
  | n + 1, first :: rest =>
    let (position, size) := largestLead first rest
    if pivotThreshold ≤ size then do
      let (p, others) ← exchange first rest position
      let reduced ← others.mapM (reduce p)
      let xs ← solve n reduced
      match p.rhs with
      | some t => pure ((t - Scalar.dot p.tail xs) / p.lead :: xs)
      | none => .misuse .outOfRange
    else .fail .singularMatrix

end Row

def Matrix.solve {α : Type} [Scalar α] (a : Matrix α) (b : List α) : Outcome α (List α) :=
  Row.solve a.size (Row.zip a.rows b)

end Nodal
