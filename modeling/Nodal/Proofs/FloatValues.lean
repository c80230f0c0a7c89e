import Nodal.Proofs.FloatOrder

/-! # Results that need no rounding

A result of floating point that 64 bits can hold is exact. Rounding brings a mantissa to the
exponent that the format asks for; where the value can be held, this exponent is not too large for
it, and the bits that are shifted out are zero. -/

namespace Nodal.FloatOrder
open Float.Model Float.Model.UnpackedFloat

/-- The number that a value stands for, if it is finite. -/
def value? : UnpackedFloat → Option ℚ
  | .zero _ => some 0
  | .finite s m e _ => some (s.apply m * 2 ^ e)
  | _ => none

/-- A number that 64 bits can hold. -/
def Representable (q : ℚ) : Prop :=
  ∃ (n : ℕ) (e : ℤ), n < 2 ^ 53 ∧ -1074 ≤ e ∧ e ≤ 971 ∧ |q| = n * 2 ^ e

theorem abs_apply (s : Sign) (m : ℕ) (e : ℤ) : |(s.apply m : ℚ) * 2 ^ e| = m * 2 ^ e := by
  have hpos : (0 : ℚ) < 2 ^ e := zpow_pos two_pos e
  rw [abs_mul, abs_of_pos hpos]
  cases s <;> simp [Sign.apply]

theorem apply_neg (s : Sign) (m : ℤ) : (-s).apply m = -s.apply m := by
  cases s
  · exact (neg_neg m).symm
  · rfl

theorem apply_mul (s t : Sign) (m n : ℤ) : (s * t).apply (m * n) = s.apply m * t.apply n := by
  cases s <;> cases t
  · exact (neg_mul_neg m n).symm
  · exact (neg_mul m n).symm
  · exact (mul_neg m n).symm
  · rfl

/-! ## Shifts -/

/-- Zeros are shifted out without a trace. -/
theorem shiftRight_exact (c n : ℕ) :
    (⟨c * 2 ^ n, false, false⟩ : ExtendedMantissa) >>> n = ⟨c, false, false⟩ := by
  show Nat.repeat ExtendedMantissa.shiftRightOne n ⟨c * 2 ^ n, false, false⟩ = _
  induction n generalizing c with
  | zero => simp [Nat.repeat]
  | succ n ih =>
    rw [Nat.repeat, pow_succ', ← mul_assoc, ih]
    simp [ExtendedMantissa.shiftRightOne]

theorem log2_mul_two_pow {m : ℕ} (hm : m ≠ 0) (n : ℕ) : (m * 2 ^ n).log2 = m.log2 + n := by
  induction n with
  | zero => simp
  | succ n ih =>
    rw [pow_succ', Nat.mul_left_comm, Nat.log2_two_mul (Nat.mul_ne_zero hm (by positivity)), ih,
      Nat.add_assoc]

/-- A mantissa for a smaller exponent. -/
theorem mul_two_zpow {m : ℕ} {e f : ℤ} (h : f ≤ e) :
    ((m * 2 ^ (e - f).toNat : ℕ) : ℚ) * 2 ^ f = m * 2 ^ e := by
  have hexp : ((e - f).toNat : ℤ) + f = e := by omega
  rw [Nat.cast_mul, Nat.cast_pow, Nat.cast_two, mul_assoc, ← zpow_natCast,
    ← zpow_add₀ two_ne_zero, hexp]

/-! ## Rounding -/

section Rounding
variable {s : Sign} {M n : ℕ} {E e : ℤ}

/-- The exponent for a number that can be held is not too large. -/
theorem target_le (hM : 0 < M) (hn : n < 2 ^ 53) (he : -1074 ≤ e)
    (h : (M : ℚ) * 2 ^ E = n * 2 ^ e) : target M E ≤ e := by
  have hlog : (2 : ℚ) ^ ((M.log2 : ℤ) + E) < 2 ^ (53 + e) := by
    calc (2 : ℚ) ^ ((M.log2 : ℤ) + E) = ((2 ^ M.log2 : ℕ) : ℚ) * 2 ^ E := by
          rw [zpow_add₀ two_ne_zero, zpow_natCast, Nat.cast_pow, Nat.cast_two]
      _ ≤ M * 2 ^ E := by
          exact mul_le_mul_of_nonneg_right (Nat.cast_le.2 (Nat.log2_self_le hM.ne'))
            (zpow_pos two_pos E).le
      _ = n * 2 ^ e := h
      _ < ((2 ^ 53 : ℕ) : ℚ) * 2 ^ e :=
          mul_lt_mul_of_pos_right (Nat.cast_lt.2 hn) (zpow_pos two_pos e)
      _ = 2 ^ (53 + e) := by
          rw [zpow_add₀ two_ne_zero, Nat.cast_pow, Nat.cast_two]
          rfl
  have hlt := (zpow_lt_zpow_iff_right₀ one_lt_two).1 hlog
  unfold target
  omega

/-- So its mantissa is a multiple of what is cut off. -/
theorem exists_cut (hM : 0 < M) (hq : Representable (s.apply M * 2 ^ E)) (hE : E ≤ target M E) :
    ∃ c, M = c * 2 ^ (target M E - E).toNat := by
  obtain ⟨n, e, hn, he, -, hq⟩ := hq
  rw [abs_apply] at hq
  have hle := target_le hM hn he hq
  refine ⟨n * 2 ^ (e - target M E).toNat, ?_⟩
  have hcast : (M : ℚ) = (n * 2 ^ (e - E).toNat : ℕ) :=
    mul_right_cancel₀ (zpow_ne_zero E two_ne_zero) (hq.trans (mul_two_zpow (hE.trans hle)).symm)
  have hexp : (e - E).toNat = (e - target M E).toNat + (target M E - E).toNat := by omega
  rw [mul_assoc, ← pow_add, ← hexp]
  exact Nat.cast_inj.1 hcast

/-- Rounding a multiple of what is cut off leaves the other factor. -/
theorem roundWithAccuracy_cut {c : ℕ} (hM : 0 < M) (hE : E ≤ target M E)
    (hcut : M = c * 2 ^ (target M E - E).toNat) :
    ∃ hc, roundWithAccuracy Format.binary64 s M E .exact = .finite s c (target M E) hc ∧
      Canonical c (target M E) := by
  have hfirst := shiftToTargetExponent_eq hE
  have hlt := cut_lt hE
  have hle := le_cut hM.ne' hE
  have hT : -1074 ≤ target M E := le_max_right ..
  generalize target M E = T at *
  subst hcut
  have hc : 0 < c := Nat.pos_of_mul_pos_right hM
  rw [Nat.mul_div_cancel _ (by positivity)] at hlt hle
  have hcanonical : Canonical c T := ⟨hc, hlt, hT, (eq_or_ne T (-1074)).symm.imp hle id⟩
  rw [shiftRight_exact] at hfirst
  exact ⟨hc, roundWithAccuracy_of_canonical hfirst rfl hcanonical, hcanonical⟩

theorem value_zero (s : Sign) : value? (Float.Model.pack (.zero s)).unpack = some 0 := by
  cases s <;> rfl

/-- A number that can be held is packed as it is, from its canonical form. -/
theorem value_pack {m : ℕ} {h : 0 < m} (hc : Canonical m e)
    (hq : Representable (s.apply m * 2 ^ e)) :
    value? (Float.Model.pack (.finite s m e h)).unpack = some ((s.apply m : ℚ) * 2 ^ e) := by
  obtain ⟨n, f, hn, hf, hmax, hq⟩ := hq
  rw [abs_apply] at hq
  have hle := hc.target_eq ▸ target_le h hn hf hq
  rw [unpack_pack_model, unpack_pack hc (hle.trans hmax), value?]

theorem apply_congr {m n : ℕ} (h : (m : ℚ) * 2 ^ e = n * 2 ^ E) :
    (s.apply m : ℚ) * 2 ^ e = s.apply n * 2 ^ E := by
  cases s
  · simpa [Sign.apply] using h
  · exact h

/-- A number that can be held is not changed by rounding. -/
theorem value_roundWithAccuracy (hM : 0 < M) (hq : Representable (s.apply M * 2 ^ E))
    (hE : E ≤ target M E) :
    value? (Float.Model.pack (roundWithAccuracy Format.binary64 s M E .exact)).unpack =
      some ((s.apply M : ℚ) * 2 ^ E) := by
  obtain ⟨c, hcut⟩ := exists_cut hM hq hE
  obtain ⟨hc, hround, hcanonical⟩ := roundWithAccuracy_cut (s := s) hM hE hcut
  have hvalue : (s.apply c : ℚ) * 2 ^ target M E = s.apply M * 2 ^ E := by
    refine apply_congr ?_
    rw [← mul_two_zpow hE, ← hcut]
  rw [hround, ← hvalue]
  exact value_pack hcanonical (hvalue ▸ hq)

theorem value_round (hM : 0 < M) (hq : Representable (s.apply M * 2 ^ E)) :
    value? (Float.Model.pack (UnpackedFloat.round Format.binary64 s M E)).unpack =
      some ((s.apply M : ℚ) * 2 ^ E) := by
  have hround : UnpackedFloat.round Format.binary64 s M E =
      roundWithAccuracy Format.binary64 s (M <<< (E - target M E).toNat)
        (E - (E - target M E).toNat) .exact := rfl
  rw [hround, Nat.shiftLeft_eq]
  generalize hk : (E - target M E).toNat = k
  have htarget : target (M * 2 ^ k) (E - k) = target M E := by
    unfold target
    rw [log2_mul_two_pow hM.ne']
    omega
  have hvalue : (s.apply (M * 2 ^ k : ℕ) : ℚ) * 2 ^ (E - k) = s.apply M * 2 ^ E := by
    have hscaled := mul_two_zpow (m := M) (e := E) (f := E - k) (by omega)
    rw [sub_sub_cancel, Int.toNat_natCast] at hscaled
    exact apply_congr hscaled
  rw [← hvalue] at hq ⊢
  exact value_roundWithAccuracy (by positivity) hq (by omega)

theorem value_normalize {k : ℤ} {z : Sign} (hq : Representable (k * 2 ^ E)) :
    value? (Float.Model.pack (UnpackedFloat.normalize Format.binary64 k E z)).unpack =
      some ((k : ℚ) * 2 ^ E) := by
  unfold UnpackedFloat.normalize
  rcases lt_trichotomy k 0 with h | rfl | h
  · have hk : Sign.negative.apply ((-k).toNat : ℤ) = k := by
      rw [Int.toNat_of_nonneg (by omega)]
      exact neg_neg k
    rw [← hk] at hq
    rw [compare_lt_iff_lt.2 h, value_round (by omega) hq, hk]
  · rw [Int.cast_zero, zero_mul]
    exact value_zero z
  · have hk : Sign.positive.apply (k.toNat : ℤ) = k := Int.toNat_of_nonneg h.le
    rw [← hk] at hq
    rw [compare_gt_iff_gt.2 h, value_round (by omega) hq, hk]

end Rounding

/-! ## Operations -/

/-- The number that a float stands for, if it is finite. -/
def floatValue? (x : Float) : Option ℚ := value? x.toModel.unpack

theorem representable_int {k e : ℤ} (hk : k.natAbs < 2 ^ 53) (he : -1074 ≤ e) (hmax : e ≤ 971) :
    Representable (k * 2 ^ e) := by
  have hpos : (0 : ℚ) < 2 ^ e := zpow_pos two_pos e
  exact ⟨k.natAbs, e, hk, he, hmax, by rw [abs_mul, abs_of_pos hpos, Nat.cast_natAbs, Int.cast_abs]⟩

variable {x y : Float} {p q : ℚ}

/-- A float that stands for a number is a zero or canonical. -/
theorem unpack_of_floatValue (h : floatValue? x = some p) :
    (∃ s, x.toModel.unpack = .zero s ∧ p = 0) ∨
      ∃ s m e hm, x.toModel.unpack = .finite s m e hm ∧ Canonical m e ∧
        p = (s.apply m : ℚ) * 2 ^ e := by
  unfold floatValue? at h
  cases hu : x.toModel.unpack with
  | infinity s => simp [hu, value?] at h
  | notANumber => simp [hu, value?] at h
  | zero s =>
    rw [hu] at h
    exact .inl ⟨s, rfl, (Option.some.inj h).symm⟩
  | finite s m e hm =>
    rw [hu] at h
    exact .inr ⟨s, m, e, hm, rfl, canonical_unpack hu, (Option.some.inj h).symm⟩

/-- A product of canonical values has no more digits than are cut off. -/
theorem Canonical.le_target_mul {m n : ℕ} {e f : ℤ} (hm : Canonical m e) (hn : Canonical n f) :
    e + f ≤ target (m * n) (e + f) := by
  have hlog : 52 ≤ (m * n).log2 ∨ e = -1074 ∧ f = -1074 := by
    have hmn : m * n ≠ 0 := Nat.mul_ne_zero hm.1.ne' hn.1.ne'
    rcases hm.2.2.2 with h | h
    · exact .inl ((Nat.le_log2 hmn).2 (h.trans (Nat.le_mul_of_pos_right m hn.1)))
    rcases hn.2.2.2 with h' | h'
    · exact .inl ((Nat.le_log2 hmn).2 (h'.trans (Nat.le_mul_of_pos_left n hm.1)))
    · exact .inr ⟨h, h'⟩
  unfold target
  omega

theorem floatValue_mul (hx : floatValue? x = some p) (hy : floatValue? y = some q)
    (hpq : Representable (p * q)) : floatValue? (x * y) = some (p * q) := by
  show value? (Float.Model.pack (UnpackedFloat.mul Format.binary64 x.toModel.unpack
    y.toModel.unpack)).unpack = some (p * q)
  rcases unpack_of_floatValue hx with ⟨s, hu, rfl⟩ | ⟨s, m, e, hm, hu, hc, rfl⟩ <;>
  rcases unpack_of_floatValue hy with ⟨t, hv, rfl⟩ | ⟨t, n, f, hn, hv, hd, rfl⟩ <;>
  rw [hu, hv]
  · rw [zero_mul]
    exact value_zero (s * t)
  · rw [zero_mul]
    exact value_zero (s * t)
  · rw [mul_zero]
    exact value_zero (s * t)
  · have hvalue : (s.apply m : ℚ) * 2 ^ e * ((t.apply n : ℚ) * 2 ^ f) =
        ((s * t).apply (m * n : ℕ) : ℤ) * 2 ^ (e + f) := by
      rw [Nat.cast_mul, apply_mul, Int.cast_mul, zpow_add₀ two_ne_zero, mul_mul_mul_comm]
    rw [hvalue] at hpq ⊢
    exact value_roundWithAccuracy (Nat.mul_pos hm hn) hpq (hc.le_target_mul hd)

theorem apply_shiftLeft (s : Sign) (m : ℕ) {e f : ℤ} (h : f ≤ e) :
    (s.apply (m <<< (e - f).toNat : ℕ) : ℚ) * 2 ^ f = s.apply m * 2 ^ e := by
  rw [Nat.shiftLeft_eq]
  exact apply_congr (mul_two_zpow h)

theorem floatValue_sub (hx : floatValue? x = some p) (hy : floatValue? y = some q)
    (hpq : Representable (p - q)) : floatValue? (x - y) = some (p - q) := by
  show value? (Float.Model.pack (UnpackedFloat.sub Format.binary64 x.toModel.unpack
    y.toModel.unpack)).unpack = some (p - q)
  rcases unpack_of_floatValue hx with ⟨s, hu, rfl⟩ | ⟨s, m, e, hm, hu, hc, rfl⟩ <;>
  rcases unpack_of_floatValue hy with ⟨t, hv, rfl⟩ | ⟨t, n, f, hn, hv, hd, rfl⟩ <;>
  rw [hu, hv]
  · rw [sub_zero]
    cases s <;> cases t <;> rfl
  · have hvalue : 0 - (t.apply n : ℚ) * 2 ^ f = ((-t).apply n : ℤ) * 2 ^ f := by
      rw [zero_sub, apply_neg, Int.cast_neg, neg_mul]
    rw [hvalue] at hpq ⊢
    exact value_pack hd hpq
  · rw [sub_zero] at hpq ⊢
    exact value_pack hc hpq
  · have hvalue : (s.apply m : ℚ) * 2 ^ e - (t.apply n : ℚ) * 2 ^ f =
        (s.apply (m <<< (e - min e f).toNat : ℕ) - t.apply (n <<< (f - min e f).toNat : ℕ) : ℤ) *
          2 ^ min e f := by
      rw [Int.cast_sub, sub_mul, apply_shiftLeft s m (min_le_left e f),
        apply_shiftLeft t n (min_le_right e f)]
    rw [hvalue] at hpq ⊢
    exact value_normalize hpq

theorem floatValue_ofWord {n : UInt64} (hn : n.toNat < 2 ^ 53) :
    floatValue? n.toFloat = some (n.toNat : ℚ) := by
  have h : floatValue? n.toFloat = some (((n.toNat : ℤ) : ℚ) * 2 ^ (0 : ℤ)) :=
    value_normalize (representable_int hn (by decide) (by decide))
  rw [h, zpow_zero, mul_one, Int.cast_natCast]

end Nodal.FloatOrder
