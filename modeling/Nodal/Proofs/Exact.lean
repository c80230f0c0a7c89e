import Mathlib.Algebra.BigOperators.Ring.Finset
import Mathlib.Algebra.Order.Field.Basic
import Mathlib.Algebra.Order.BigOperators.Group.List
import Mathlib.Data.Rat.Cast.OfScientific
import Mathlib.Tactic.FieldSimp
import Mathlib.Tactic.Linarith
import Mathlib.Tactic.NormNum
import Mathlib.Tactic.Ring
import Nodal.Scalar

/-! # Exact arithmetic

An ordered field is a `Scalar` when the elementary functions are taken to be any functions at all.
All its values are finite numbers, and sums do not depend on the order in which they are taken, so
the laws of circuits hold in it exactly. -/

namespace Nodal

/-- An ordered field with functions in the place of the elementary ones. Of these only the square
root is known to have a sign. -/
class ExactScalar (α : Type) extends Field α, LinearOrder α, IsStrictOrderedRing α where
  sqrt : α → α
  sqrt_nonneg : ∀ a : α, 0 ≤ a → 0 ≤ sqrt a
  exp : α → α
  ln : α → α
  sin : α → α
  /-- Stands for half the circumference of the unit circle. -/
  halfTurn : α
  /-- Stands for the square root of two. -/
  rootTwo : α

instance (priority := low) ExactScalar.toScalar {α : Type} [ExactScalar α] : Scalar α where
  decLt a b := inferInstanceAs (Decidable (a < b))
  decLe a b := inferInstanceAs (Decidable (a ≤ b))
  isNaN _ := false
  isFinite _ := true
  abs a := |a|
  sqrt := ExactScalar.sqrt
  exp := ExactScalar.exp
  ln := ExactScalar.ln
  sin := ExactScalar.sin
  pi := ExactScalar.halfTurn
  sqrtTwo := ExactScalar.rootTwo
  ofWord w := w.toNat

namespace Scalar
variable {α : Type} [ExactScalar α]

@[simp] theorem isNaN_exact (a : α) : Scalar.isNaN a = false := rfl

@[simp] theorem isFinite_exact (a : α) : Scalar.isFinite a = true := rfl

@[simp] theorem isPositive_iff (a : α) : Scalar.isPositive a = true ↔ 0 < a := by
  simp [Scalar.isPositive]

theorem two_exact : (2.0 : α) = 2 := by norm_num

theorem min_exact (a b : α) : Scalar.min a b = Min.min a b := by
  simp only [Scalar.min, isNaN_exact, Bool.false_eq_true, ↓reduceIte]
  split
  · rename_i h; exact (min_eq_right h.le).symm
  · rename_i h; exact (min_eq_left (not_lt.1 h)).symm

theorem sum_exact (xs : List α) : Scalar.sum xs = xs.sum := by
  rw [Scalar.sum, neg_zero, List.sum_eq_foldl]

@[simp] theorem dot_nil (ys : List α) : Scalar.dot ([] : List α) ys = 0 := by
  simp [Scalar.dot, sum_exact]

@[simp] theorem dot_nil_right (xs : List α) : Scalar.dot xs ([] : List α) = 0 := by
  simp [Scalar.dot, sum_exact]

@[simp] theorem dot_cons (x y : α) (xs ys : List α) :
    Scalar.dot (x :: xs) (y :: ys) = x * y + Scalar.dot xs ys := by
  simp [Scalar.dot, sum_exact]

theorem dot_eq_sum (xs ys : List α) :
    Scalar.dot xs ys = ∑ j ∈ Finset.range xs.length, xs.getD j 0 * ys.getD j 0 := by
  induction xs generalizing ys with
  | nil => simp
  | cons x xs ih =>
    cases ys with
    | nil => simp
    | cons y ys => simp [Finset.sum_range_succ', ih, add_comm]

/-- The squares of the entries have a sum, and the norm is its root. -/
theorem norm_exact (xs : List α) :
    Scalar.norm xs = ExactScalar.sqrt (xs.map fun x => x * x).sum := by
  rw [Scalar.norm, sum_exact]; rfl

theorem norm_nonneg (xs : List α) : 0 ≤ Scalar.norm xs := by
  rw [norm_exact]
  refine ExactScalar.sqrt_nonneg _ (List.sum_nonneg fun y hy => ?_)
  obtain ⟨x, -, rfl⟩ := List.mem_map.1 hy
  exact mul_self_nonneg x

end Scalar

/-- The rationals, where functions that agree with the elementary ones at 0 or at 1 stand for
them. -/
instance : ExactScalar Rat where
  sqrt a := |a|
  sqrt_nonneg a _ := abs_nonneg a
  exp a := 1 + a
  ln a := a - 1
  sin a := a
  halfTurn := 22 / 7
  rootTwo := 99 / 70

end Nodal
