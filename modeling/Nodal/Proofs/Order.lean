import Nodal.Proofs.Exact

/-! # Comparisons of scalars

The few facts about comparisons that a search for the smallest residual rests on. They hold of an
ordered field and of floating point, where a value may be infinite or no number. -/

namespace Nodal

/-- What comparisons promise. Only a value that is no number compares with nothing. -/
class OrderedScalar (α : Type) [Scalar α] : Prop where
  lt_iff : ∀ a b : α, a < b ↔ Scalar.isNaN a = false ∧ Scalar.isNaN b = false ∧ ¬ b ≤ a
  le_total : ∀ a b : α, Scalar.isNaN a = false → Scalar.isNaN b = false → a ≤ b ∨ b ≤ a
  le_trans : ∀ a b c : α, a ≤ b → b ≤ c → a ≤ c
  isNaN_of_le : ∀ a b : α, a ≤ b → Scalar.isNaN a = false ∧ Scalar.isNaN b = false
  isNaN_of_isFinite : ∀ a : α, Scalar.isFinite a → Scalar.isNaN a = false
  le_infinite : ∀ a b : α, Scalar.isFinite a → Scalar.isNaN b = false →
    Scalar.isFinite b = false → 0 ≤ b → a ≤ b
  norm_nonneg : ∀ xs : List α, Scalar.isNaN (Scalar.norm xs) = false → 0 ≤ Scalar.norm xs
  le_mul_ten : ∀ a : α, 0 < a → a ≤ a * 10.0

namespace OrderedScalar
variable {α : Type} [Scalar α] [OrderedScalar α] {a b c : α}

theorem le_refl (h : Scalar.isNaN a = false) : a ≤ a :=
  (le_total a a h h).elim id id

theorem le_of_not_lt (ha : Scalar.isNaN a = false) (hb : Scalar.isNaN b = false) (h : ¬ a < b) :
    b ≤ a := by
  by_contra hle
  exact h ((lt_iff a b).2 ⟨ha, hb, hle⟩)

theorem le_of_lt (h : a < b) : a ≤ b := by
  obtain ⟨ha, hb, hle⟩ := (lt_iff a b).1 h
  exact (le_total a b ha hb).resolve_right hle

theorem lt_of_lt_of_le (hab : a < b) (hbc : b ≤ c) : a < c := by
  obtain ⟨ha, -, hle⟩ := (lt_iff a b).1 hab
  obtain ⟨-, hc⟩ := isNaN_of_le b c hbc
  exact (lt_iff a c).2 ⟨ha, hc, fun hca => hle (le_trans b c a hbc hca)⟩

theorem lt_of_le_of_lt (hab : a ≤ b) (hbc : b < c) : a < c := by
  obtain ⟨-, hc, hle⟩ := (lt_iff b c).1 hbc
  obtain ⟨ha, -⟩ := isNaN_of_le a b hab
  exact (lt_iff a c).2 ⟨ha, hc, fun hca => hle (le_trans c a b hca hab)⟩

/-- A length below a limit is below ten times the limit. -/
theorem norm_lt_mul_ten {xs : List α} (h : Scalar.norm xs < a) : Scalar.norm xs < a * 10.0 := by
  have hn := norm_nonneg xs ((lt_iff _ _).1 h).1
  exact lt_of_lt_of_le h (le_mul_ten a (lt_of_le_of_lt hn h))

end OrderedScalar

instance {α : Type} [ExactScalar α] : OrderedScalar α where
  lt_iff a b := by simp
  le_total a b _ _ := le_total a b
  le_trans _ _ _ := le_trans
  isNaN_of_le _ _ _ := ⟨rfl, rfl⟩
  isNaN_of_isFinite _ _ := rfl
  le_infinite _ _ _ _ h := by simp at h
  norm_nonneg xs _ := Scalar.norm_nonneg xs
  le_mul_ten a h := by
    have h10 : (10.0 : α) = 10 := by norm_num
    rw [h10]
    linarith

end Nodal
