/-! # Scalars

The arithmetic a simulation needs, as operations only. Every model in this library is written over a
`Scalar`, so one definition serves binary floating point, where programs run, and an ordered field,
where laws are stated: a class of operations promises no law, and each of the two keeps its own. -/

namespace Nodal

/-- Field operations, comparisons that can be decided, and the elementary functions of the device
models. -/
class Scalar (α : Type) extends Zero α, One α, Add α, Sub α, Mul α, Div α, Neg α, LT α, LE α, BEq α,
    OfScientific α where
  decLt : ∀ a b : α, Decidable (a < b)
  decLe : ∀ a b : α, Decidable (a ≤ b)
  /-- Holds of a value that is not a number. -/
  isNaN : α → Bool
  /-- Holds of a number that is not infinite. -/
  isFinite : α → Bool
  abs : α → α
  sqrt : α → α
  exp : α → α
  ln : α → α
  sin : α → α
  pi : α
  sqrtTwo : α
  ofWord : UInt64 → α

namespace Scalar
variable {α : Type} [Scalar α]

instance : DecidableLT α := decLt
instance : DecidableLE α := decLe

/-- The smaller of two values; a value that is not a number loses to one that is. -/
def min (x y : α) : α :=
  if isNaN x then y else if y < x then y else x

/-- The larger of two values; a value that is not a number loses to one that is. -/
def max (x y : α) : α :=
  if isNaN x then y else if x < y then y else x

/-- Adds from left to right. The start is minus zero, which is neutral also for a list of minus
zeros. -/
def sum (xs : List α) : α :=
  xs.foldl (· + ·) (-0)

/-- Adds the products of entries at equal positions, as far as both lists reach. -/
def dot (xs ys : List α) : α :=
  sum (List.zipWith (· * ·) xs ys)

def norm (xs : List α) : α :=
  sqrt (sum (xs.map fun x => x * x))

/-- Holds of a number above zero that is not infinite. -/
def isPositive (x : α) : Bool :=
  decide (0 < x) && isFinite x

end Scalar

instance : Scalar Float where
  zero := 0.0
  one := 1.0
  decLt := Float.decLt
  decLe := Float.decLe
  isNaN := Float.isNaN
  isFinite := Float.isFinite
  abs := Float.abs
  sqrt := Float.sqrt
  exp := Float.exp
  ln := Float.log
  sin := Float.sin
  pi := 3.141592653589793
  sqrtTwo := 1.4142135623730951
  ofWord := UInt64.toFloat

end Nodal
