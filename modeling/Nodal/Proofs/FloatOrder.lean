import Mathlib
import Nodal.Proofs.Order

/-! # Comparisons of floating point

Binary floating point of 64 bits keeps the laws of `OrderedScalar`. Values that are numbers are
ordered by a key, lexicographically: the sign, the exponent, the mantissa. A product with ten is
rounded, but never below its first factor. -/

namespace Nodal.FloatOrder
open Float.Model Float.Model.UnpackedFloat

/-! ## The key -/

/-- Orders the values that are numbers. -/
def key : UnpackedFloat → ℤ ×ₗ ℤ ×ₗ ℤ
  | .notANumber => toLex (0, toLex (0, 0))
  | .infinity .negative => toLex (-2, toLex (0, 0))
  | .finite .negative m e _ => toLex (-1, toLex (-e, -m))
  | .zero _ => toLex (0, toLex (0, 0))
  | .finite .positive m e _ => toLex (1, toLex (e, m))
  | .infinity .positive => toLex (2, toLex (0, 0))

theorem key_le_infinity (u : UnpackedFloat) : key u ≤ key (.infinity .positive) := by
  have h : ∀ c : ℤ, c < 2 → ∀ v, toLex (c, v) ≤ key (.infinity .positive) :=
    fun c hc v => Prod.Lex.toLex_le_toLex.2 (.inl hc)
  rcases u with (_ | _) | _ | (_ | _) | ⟨_ | _, m, e, hm⟩
  · exact h (-2) (by decide) _
  · exact le_rfl
  · exact h 0 (by decide) _
  · exact h 0 (by decide) _
  · exact h 0 (by decide) _
  · exact h (-1) (by decide) _
  · exact h 1 (by decide) _

theorem compare_then (e f : Int) (m n : Nat) :
    (compare e f).then (compare m n) = compare (toLex (e, (m : ℤ))) (toLex (f, (n : ℤ))) := by
  have hlex : ∀ {e f : ℤ} {m n : ℕ}, e < f ∨ e = f ∧ m < n →
      toLex (e, (m : ℤ)) < toLex (f, (n : ℤ)) := fun h =>
    Prod.Lex.toLex_lt_toLex.2 (h.imp id fun h => ⟨h.1, Int.ofNat_lt.2 h.2⟩)
  rcases lt_trichotomy e f with h | rfl | h
  · rw [Int.compare_eq_lt.2 h, (compare_lt_iff_lt ..).2 (hlex (.inl h))]
    rfl
  · rcases lt_trichotomy m n with hm | rfl | hm
    · rw [Nat.compare_eq_lt.2 hm, (compare_lt_iff_lt ..).2 (hlex (.inr ⟨rfl, hm⟩))]
      simp
    · simp
    · rw [Nat.compare_eq_gt.2 hm, (compare_gt_iff_gt ..).2 (hlex (.inr ⟨rfl, hm⟩))]
      simp
  · rw [Int.compare_eq_gt.2 h, (compare_gt_iff_gt ..).2 (hlex (.inl h))]
    rfl

theorem compare_toLex {β : Type} [LinearOrder β] (c : ℤ) (u v : β) :
    compare (toLex (c, u)) (toLex (c, v)) = compare u v := by
  rcases lt_trichotomy u v with h | rfl | h
  · rw [(compare_lt_iff_lt ..).2 h, compare_lt_iff_lt]
    exact Prod.Lex.toLex_lt_toLex.2 (.inr ⟨rfl, h⟩)
  · simp
  · rw [(compare_gt_iff_gt ..).2 h, compare_gt_iff_gt]
    exact Prod.Lex.toLex_lt_toLex.2 (.inr ⟨rfl, h⟩)

theorem compare_neg (e f m n : ℤ) :
    compare (toLex (-e, -m)) (toLex (-f, -n)) = (compare (toLex (e, m)) (toLex (f, n))).swap := by
  have hneg : ∀ {e f m n : ℤ}, toLex (e, m) < toLex (f, n) → toLex (-f, -n) < toLex (-e, -m) := by
    intro e f m n h
    rw [Prod.Lex.toLex_lt_toLex] at h ⊢
    simp only at h ⊢
    omega
  rcases lt_trichotomy (toLex (e, m)) (toLex (f, n)) with h | h | h
  · rw [(compare_lt_iff_lt ..).2 h, (compare_gt_iff_gt ..).2 (hneg h)]
    rfl
  · obtain ⟨rfl, rfl⟩ := Prod.mk.injEq .. ▸ toLex_inj.1 h
    simp
  · rw [(compare_gt_iff_gt ..).2 h, (compare_lt_iff_lt ..).2 (hneg h)]
    rfl

/-- Numbers compare as their keys do, and a value that is no number compares with nothing. -/
theorem compare_eq_key (a b : UnpackedFloat) :
    a.compare b = if a.isNaN || b.isNaN then none else some (compare (key a) (key b)) := by
  rcases a with (_ | _) | _ | (_ | _) | ⟨_ | _, m, e, hm⟩ <;>
  rcases b with (_ | _) | _ | (_ | _) | ⟨_ | _, n, f, hn⟩ <;>
  first
  | rfl
  | simp only [UnpackedFloat.compare, UnpackedFloat.isNaN, key, Bool.or_self, Bool.false_eq_true,
      if_false, compare_toLex, compare_then]
  rw [compare_neg]

theorem le_iff_key (a b : UnpackedFloat) :
    a.le b ↔ a.isNaN = false ∧ b.isNaN = false ∧ key a ≤ key b := by
  rw [UnpackedFloat.le, compare_eq_key]
  cases a.isNaN <;> cases b.isNaN <;> simp [← Ordering.ne_gt_iff_isLE, compare_le_iff_le]

theorem lt_iff_key (a b : UnpackedFloat) :
    a.lt b ↔ a.isNaN = false ∧ b.isNaN = false ∧ key a < key b := by
  rw [UnpackedFloat.lt, compare_eq_key]
  cases a.isNaN <;> cases b.isNaN <;> simp [compare_lt_iff_lt]

theorem float_le_iff (a b : Float) :
    a ≤ b ↔ a.isNaN = false ∧ b.isNaN = false ∧ key a.toModel.unpack ≤ key b.toModel.unpack := by
  refine Iff.trans ?_ (le_iff_key a.toModel.unpack b.toModel.unpack)
  show decide (a.toModel ≤ b.toModel) = true ↔ _
  rw [decide_eq_true_iff]
  rfl

theorem float_lt_iff (a b : Float) :
    a < b ↔ a.isNaN = false ∧ b.isNaN = false ∧ key a.toModel.unpack < key b.toModel.unpack := by
  refine Iff.trans ?_ (lt_iff_key a.toModel.unpack b.toModel.unpack)
  show decide (a.toModel < b.toModel) = true ↔ _
  rw [decide_eq_true_iff]
  rfl

/-! ## Rounding -/

theorem mantissa_shiftRight (em : ExtendedMantissa) (n : Nat) :
    (em >>> n).mantissa = em.mantissa / 2 ^ n := by
  show (Nat.repeat ExtendedMantissa.shiftRightOne n em).mantissa = em.mantissa / 2 ^ n
  induction n with
  | zero => simp [Nat.repeat]
  | succ n ih =>
    rw [Nat.repeat, ExtendedMantissa.shiftRightOne, ih, Nat.div_div_eq_div_mul, ← Nat.pow_succ]

theorem roundedMantissa_bounds (em : ExtendedMantissa) :
    em.mantissa ≤ em.roundedMantissa ∧ em.roundedMantissa ≤ em.mantissa + 1 := by
  obtain ⟨m, r, t⟩ := em
  cases r <;> cases t <;>
    simp only [ExtendedMantissa.roundedMantissa, ExtendedMantissa.accuracy,
      Accuracy.roundToNearestEven] <;> omega

/-- The exponent that a mantissa is brought to, at least that of the smallest numbers. -/
def target (m : Nat) (e : Int) : Int := max ((m.log2 : Int) + 1 + e - 53) (-1074)

theorem shiftToTargetExponent_eq {m : Nat} {e : Int} (h : e ≤ target m e) :
    shiftToTargetExponent Format.binary64 m e .exact =
      ((⟨m, false, false⟩ : ExtendedMantissa) >>> (target m e - e).toNat, target m e) := by
  show ((⟨m, false, false⟩ : ExtendedMantissa) >>> (target m e - e).toNat,
    e + ((target m e - e).toNat : Int)) = _
  congr 1
  omega

/-- A mantissa and exponent as 64 bits can hold them, but for exponents that are too large. -/
def Canonical (m : Nat) (e : Int) : Prop :=
  0 < m ∧ m < 2 ^ 53 ∧ -1074 ≤ e ∧ (2 ^ 52 ≤ m ∨ e = -1074)

theorem cut_lt {M : Nat} {E : Int} (hE : E ≤ target M E) :
    M / 2 ^ (target M E - E).toNat < 2 ^ 53 := by
  rw [Nat.div_lt_iff_lt_mul (by positivity), ← pow_add]
  refine Nat.lt_log2_self.trans_le (Nat.pow_le_pow_right (by decide) ?_)
  unfold target at hE ⊢
  omega

theorem le_cut {M : Nat} {E : Int} (hM : M ≠ 0) (hE : E ≤ target M E)
    (hT : target M E ≠ -1074) : 2 ^ 52 ≤ M / 2 ^ (target M E - E).toNat := by
  rw [Nat.le_div_iff_mul_le (by positivity), ← pow_add]
  refine le_trans (Nat.pow_le_pow_right (by decide) ?_) (Nat.log2_self_le hM)
  unfold target at hE hT ⊢
  omega

/-- What is canonical is where rounding brings it. -/
theorem Canonical.target_eq {m : Nat} {e : Int} (h : Canonical m e) : target m e = e := by
  obtain ⟨hm, hlt, he, hmin⟩ := h
  have hlog : m.log2 < 53 := (Nat.log2_lt hm.ne').2 hlt
  unfold target
  rcases hmin with hmin | rfl
  · have : 52 ≤ m.log2 := (Nat.le_log2 hm.ne').2 hmin
    omega
  · omega

/-- A rounded mantissa that is canonical is left as it is by the second shift. -/
theorem roundWithAccuracy_of_canonical {s : Sign} {M r : Nat} {E T : Int} {em : ExtendedMantissa}
    (hfirst : shiftToTargetExponent Format.binary64 M E .exact = (em, T))
    (hr : em.roundedMantissa = r) (hc : Canonical r T) :
    roundWithAccuracy Format.binary64 s M E .exact = .finite s r T hc.1 := by
  have hsecond := shiftToTargetExponent_eq hc.target_eq.ge
  rw [hc.target_eq] at hsecond
  unfold roundWithAccuracy
  simp only [hfirst, hr, hsecond, mantissa_shiftRight]
  simp [hc.1.ne']

/-- Rounding ends at the target exponent, with the mantissa cut off or raised, or one above. -/
theorem round_spec {M : Nat} {E : Int} (hE : E ≤ target M E)
    (hq : 0 < M / 2 ^ (target M E - E).toNat) :
    ∃ m e h, roundWithAccuracy Format.binary64 .positive M E .exact = .finite .positive m e h ∧
      Canonical m e ∧ target M E ≤ e ∧
      (e = target M E → M / 2 ^ (target M E - E).toNat ≤ m) := by
  have hM : M ≠ 0 := by
    rintro rfl
    simp at hq
  have hT : -1074 ≤ target M E := le_max_right ..
  have hq53 := cut_lt hE
  have hq52 := le_cut hM hE
  have hfirst := shiftToTargetExponent_eq hE
  obtain ⟨hlo, hhi⟩ := roundedMantissa_bounds
    ((⟨M, false, false⟩ : ExtendedMantissa) >>> (target M E - E).toNat)
  rw [mantissa_shiftRight] at hlo hhi
  simp only at hlo hhi
  generalize target M E = T at *
  generalize hs : (T - E).toNat = s at *
  generalize hr : ((⟨M, false, false⟩ : ExtendedMantissa) >>> s).roundedMantissa = r at *
  have hr0 : r ≠ 0 := by omega
  -- the second shift only repairs a mantissa that rounding has made one bit too long
  rcases Nat.lt_or_ge r (2 ^ 53) with hr53 | hr53
  · have hc : Canonical r T := by
      refine ⟨Nat.pos_of_ne_zero hr0, hr53, by omega, ?_⟩
      rcases eq_or_ne T (-1074) with h | h
      · exact .inr h
      · exact .inl ((hq52 h).trans hlo)
    exact ⟨r, T, hc.1, roundWithAccuracy_of_canonical hfirst hr hc, hc, le_rfl, fun _ => hlo⟩
  · have hr53 : r = 2 ^ 53 := by omega
    have htarget : target r T = T + 1 := by
      unfold target
      rw [hr53, Nat.log2_two_pow]
      omega
    have hsecond := shiftToTargetExponent_eq (m := r) (e := T) (by omega)
    rw [htarget] at hsecond
    refine ⟨2 ^ 52, T + 1, by decide, ?_, ⟨by decide, by decide, by omega, .inl le_rfl⟩, by omega,
      fun h => by omega⟩
    unfold roundWithAccuracy
    simp only [hfirst, hr, hsecond, mantissa_shiftRight]
    simp [hr53]

/-! ## Packing -/

theorem toNat_append_one (v : BitVec 52) : (1#1 ++ v).toNat = 2 ^ 52 + v.toNat := by
  rw [BitVec.toNat_append, ← Nat.shiftLeft_add_eq_or_of_lt v.isLt]
  simp [Nat.shiftLeft_eq]

theorem canonical_unpack {b : BitVec 64} {s : Sign} {m : Nat} {e : Int} {h : 0 < m}
    (hu : UnpackedFloat.unpack Format.binary64 b = .finite s m e h) : Canonical m e := by
  unfold UnpackedFloat.unpack at hu
  have hexp := (@unpackExponent Format.binary64 b).isLt
  have hman := (@unpackMantissa Format.binary64 b).isLt
  simp only [Format.exponentBias] at hu hexp hman
  split at hu
  · split at hu <;> cases hu
  split at hu
  · rename_i hzero
    split at hu
    · cases hu
    · cases hu
      refine ⟨h, by omega, ?_, .inr ?_⟩ <;> simp [hzero]
  · rename_i hzero
    cases hu
    have hpos : (@unpackExponent Format.binary64 b).toNat ≠ 0 := fun h0 =>
      hzero (BitVec.eq_of_toNat_eq (by simpa using h0))
    rw [toNat_append_one]
    refine ⟨by positivity, by omega, by omega, .inl (by omega)⟩

/-- What has a positive sign when packed is not below zero, if it is a number. -/
theorem unpack_positive (e : BitVec 11) (m : BitVec 52) :
    let u := UnpackedFloat.unpack Format.binary64 (packComponents Format.binary64 .positive e m)
    u.isNaN = false → key (.zero .positive) ≤ key u := by
  intro u hu
  simp only [u, UnpackedFloat.unpack, unpackSign_packComponents, Sign.ofBitVec_toBitVec] at hu ⊢
  split at hu
  · split at hu
    · rename_i h1 h2
      rw [if_pos h1, if_pos h2]
      decide
    · cases hu
  · rename_i h1
    rw [if_neg h1]
    split
    · split
      · exact le_rfl
      · exact Prod.Lex.toLex_le_toLex.2 (.inl (show (0 : ℤ) < 1 by decide))
    · exact Prod.Lex.toLex_le_toLex.2 (.inl (show (0 : ℤ) < 1 by decide))

/-- Normal numbers keep their mantissa without its first bit, and their exponent. -/
theorem unpack_normal {s : Sign} {m biased : Nat} (hm : m < 2 ^ 53) (hmin : 2 ^ 52 ≤ m)
    (hbiased : 0 < biased) (hover : biased < 2047) :
    UnpackedFloat.unpack Format.binary64
      (packComponents Format.binary64 s (.ofNat 11 biased) (.ofNat 52 m)) =
      .finite s m (biased - 1023 - 52) (by omega) := by
  have hexp : (BitVec.ofNat 11 biased).toNat = biased := by
    rw [BitVec.toNat_ofNat, Nat.mod_eq_of_lt (by omega)]
  have hinf : BitVec.ofNat 11 biased ≠ -1#11 := BitVec.toNat_ne.2 (by rw [hexp]; simp; omega)
  have hzero : BitVec.ofNat 11 biased ≠ 0#11 := BitVec.toNat_ne.2 (by rw [hexp]; simp; omega)
  have hman : 2 ^ 52 + (BitVec.ofNat 52 m).toNat = m := by
    rw [BitVec.toNat_ofNat]
    omega
  have hbias : (Format.binary64.exponentBias : Int) = 1023 := rfl
  simp only [UnpackedFloat.unpack, unpackSign_packComponents, Sign.ofBitVec_toBitVec,
    unpackExponent_packComponents, unpackMantissa_packComponents, if_neg hinf, if_neg hzero,
    toNat_append_one, hman, hexp, hbias]
  congr 1
  omega

/-- Subnormal numbers keep their mantissa, and have the least exponent. -/
theorem unpack_subnormal {s : Sign} {m : Nat} (h : 0 < m) (hm : m < 2 ^ 52) :
    UnpackedFloat.unpack Format.binary64
      (packComponents Format.binary64 s 0#11 (.ofNat 52 m)) =
      .finite s m (-1074) h := by
  have hman : (BitVec.ofNat 52 m).toNat = m := by
    rw [BitVec.toNat_ofNat, Nat.mod_eq_of_lt hm]
  have hzero : BitVec.ofNat 52 m ≠ 0#52 := BitVec.toNat_ne.2 (by rw [hman]; simp; omega)
  have hbias : (Format.binary64.exponentBias : Int) = 1023 := rfl
  simp only [UnpackedFloat.unpack, unpackSign_packComponents, Sign.ofBitVec_toBitVec,
    unpackExponent_packComponents, unpackMantissa_packComponents, dif_neg hzero, hman, hbias]
  rw [if_neg (by decide), if_pos trivial]
  rfl

/-- A canonical value is packed without loss, unless its exponent is too large. -/
theorem unpack_pack {s : Sign} {m : Nat} {e : Int} {h : 0 < m} (hc : Canonical m e)
    (hmax : e ≤ 971) :
    UnpackedFloat.unpack Format.binary64
      (UnpackedFloat.pack Format.binary64 (.finite s m e h)) = .finite s m e h := by
  obtain ⟨-, hm, he, hmin⟩ := hc
  have hbias : (Format.binary64.exponentBias : Int) = 1023 := rfl
  have hbits : Format.binary64.mantissaBits = 53 := rfl
  simp only [UnpackedFloat.pack, hbias, hbits]
  generalize hb : (e + 1023 + 52).toNat = biased
  rw [if_neg (by omega)]
  split
  · rename_i hlog
    have h52 : 2 ^ 52 ≤ m := (Nat.le_log2 h.ne').1 (by omega)
    refine (unpack_normal hm h52 (by omega) (by omega)).trans ?_
    congr 1
    omega
  · rename_i hlog
    have hlt : m < 2 ^ 52 := by
      by_contra hge
      have h1 : 52 ≤ m.log2 := (Nat.le_log2 h.ne').2 (by omega)
      have h2 : m.log2 < 53 := (Nat.log2_lt h.ne').2 hm
      omega
    refine (unpack_subnormal h hlt).trans ?_
    congr 1
    omega

theorem unpack_pack_overflow {s : Sign} {m : Nat} {e : Int} {h : 0 < m} (hmax : 971 < e) :
    UnpackedFloat.unpack Format.binary64
      (UnpackedFloat.pack Format.binary64 (.finite s m e h)) = .infinity s := by
  have hbias : (Format.binary64.exponentBias : Int) = 1023 := rfl
  simp only [UnpackedFloat.pack, hbias]
  rw [if_pos (by omega)]
  cases s <;> rfl

theorem unpack_pack_model (u : UnpackedFloat) : (Float.Model.pack u).unpack =
    UnpackedFloat.unpack Format.binary64 (UnpackedFloat.pack Format.binary64 u) := by
  rfl

theorem round_positive (M : Nat) (E : Int) (acc : Accuracy) :
    roundWithAccuracy Format.binary64 .positive M E acc = .zero .positive ∨
      ∃ m e h, roundWithAccuracy Format.binary64 .positive M E acc = .finite .positive m e h := by
  unfold roundWithAccuracy
  simp only
  split
  · exact .inl rfl
  · rename_i h
    exact .inr ⟨_, _, Nat.pos_of_ne_zero h, rfl⟩

theorem pack_positive {m : Nat} {e : Int} (h : 0 < m) :
    ∃ v w, UnpackedFloat.pack Format.binary64 (.finite .positive m e h) =
      packComponents Format.binary64 .positive v w := by
  unfold UnpackedFloat.pack
  simp only
  split
  · exact ⟨_, _, rfl⟩
  · split <;> exact ⟨_, _, rfl⟩

/-- A square root is not below zero, if it is a number. -/
theorem sqrt_nonneg (a : UnpackedFloat)
    (h : (Float.Model.pack (UnpackedFloat.sqrt Format.binary64 a)).unpack.isNaN = false) :
    key (.zero .positive) ≤
      key (Float.Model.pack (UnpackedFloat.sqrt Format.binary64 a)).unpack := by
  rw [unpack_pack_model] at h ⊢
  have hpos : ∀ {v w}, UnpackedFloat.pack Format.binary64 (UnpackedFloat.sqrt Format.binary64 a) =
      packComponents Format.binary64 .positive v w →
      key (.zero .positive) ≤ key (UnpackedFloat.unpack Format.binary64
        (UnpackedFloat.pack Format.binary64 (UnpackedFloat.sqrt Format.binary64 a))) := by
    intro v w hvw
    rw [hvw] at h ⊢
    exact unpack_positive v w h
  rcases a with (_ | _) | _ | (_ | _) | ⟨_ | _, m, e, hm⟩
  · exact hpos rfl
  · exact hpos rfl
  · exact hpos rfl
  · exact le_rfl
  · exact hpos rfl
  · exact hpos rfl
  · have hsqrt : UnpackedFloat.sqrt Format.binary64 (.finite .positive m e hm) =
        roundWithAccuracy Format.binary64 .positive (sqrtCore Format.binary64 m e).1
          (sqrtCore Format.binary64 m e).2.1 (sqrtCore Format.binary64 m e).2.2 := rfl
    rcases round_positive (sqrtCore Format.binary64 m e).1 (sqrtCore Format.binary64 m e).2.1
      (sqrtCore Format.binary64 m e).2.2 with hz | ⟨m', e', h', hf⟩
    · exact hpos (v := 0) (w := 0) (by rw [hsqrt, hz]; rfl)
    · obtain ⟨v, w, hvw⟩ := pack_positive (e := e') h'
      exact hpos (by rw [hsqrt, hf]; exact hvw)

/-! ## Ten times a value -/

/-- The mantissa of ten. -/
def tenMantissa : Nat := 10 * 2 ^ 49

/-- The product of a canonical value with ten is rounded to one that is not below it. -/
theorem round_mul_ten {m : Nat} {e : Int} (hc : Canonical m e) :
    ∃ m' e' h, roundWithAccuracy Format.binary64 .positive (m * tenMantissa) (e + -49) .exact =
      .finite .positive m' e' h ∧ Canonical m' e' ∧ (e < e' ∨ e = e' ∧ m ≤ m') := by
  obtain ⟨hm, -, he, hmin⟩ := hc
  have hM : m * tenMantissa ≠ 0 := Nat.mul_ne_zero hm.ne' (by decide)
  have hlow : 49 ≤ (m * tenMantissa).log2 :=
    (Nat.le_log2 hM).2 (by unfold tenMantissa; omega)
  have hhigh : 2 ^ 52 ≤ m → 104 ≤ (m * tenMantissa).log2 := fun h =>
    (Nat.le_log2 hM).2 (by unfold tenMantissa; omega)
  have htarget : target (m * tenMantissa) (e + -49) =
      max (((m * tenMantissa).log2 : Int) + 1 + (e + -49) - 53) (-1074) := rfl
  have hle : e ≤ target (m * tenMantissa) (e + -49) := by
    rcases hmin with h | h
    · have := hhigh h
      omega
    · omega
  have hq : 0 < m * tenMantissa / 2 ^ (target (m * tenMantissa) (e + -49) - (e + -49)).toNat := by
    refine Nat.div_pos ((Nat.le_log2 hM).1 ?_) (by positivity)
    rcases hmin with h | h
    · have := hhigh h
      omega
    · omega
  obtain ⟨m', e', h', hround, hc', hge, hcut⟩ := round_spec (by omega) hq
  refine ⟨m', e', h', hround, hc', ?_⟩
  rcases lt_or_eq_of_le (hle.trans hge) with hlt | rfl
  · exact .inl hlt
  · -- no bit is lost, so the mantissa has become ten times as large
    have heq : target (m * tenMantissa) (e + -49) = e := le_antisymm hge hle
    have hcut := hcut heq.symm
    rw [heq, show (e - (e + -49)).toNat = 49 by omega] at hcut
    refine .inr ⟨rfl, le_trans ?_ hcut⟩
    rw [Nat.le_div_iff_mul_le (by positivity)]
    unfold tenMantissa
    omega

theorem key_le_mul_ten (a : UnpackedFloat) (hpos : key (.zero .positive) < key a)
    (hc : ∀ s m e h, a = .finite s m e h → Canonical m e) :
    let u := (Float.Model.pack (UnpackedFloat.mul Format.binary64 a
      (.finite .positive tenMantissa (-49) (by decide)))).unpack
    u.isNaN = false ∧ key a ≤ key u := by
  intro u
  rcases a with (_ | _) | _ | (_ | _) | ⟨_ | _, m, e, hm⟩
  · exact absurd hpos (by decide)
  · exact ⟨rfl, le_rfl⟩
  · exact absurd hpos (by decide)
  · exact absurd hpos (by decide)
  · exact absurd hpos (by decide)
  · exact absurd (Prod.Lex.toLex_lt_toLex.1 hpos) (by simp)
  · obtain ⟨m', e', h', hround, hc', hle⟩ := round_mul_ten (hc _ _ _ _ rfl)
    have hu : u = UnpackedFloat.unpack Format.binary64
        (UnpackedFloat.pack Format.binary64 (.finite .positive m' e' h')) := by
      rw [← hround]
      rfl
    rcases lt_or_ge 971 e' with hmax | hmax
    · rw [hu, unpack_pack_overflow hmax]
      exact ⟨rfl, key_le_infinity _⟩
    · rw [hu, unpack_pack hc' hmax]
      refine ⟨rfl, Prod.Lex.toLex_le_toLex.2 (.inr ⟨rfl, Prod.Lex.toLex_le_toLex.2 ?_⟩)⟩
      exact hle.imp id fun h => ⟨h.1, Int.ofNat_le.2 h.2⟩

end Nodal.FloatOrder

namespace Nodal
open FloatOrder

instance : OrderedScalar Float where
  lt_iff a b := by
    rw [float_lt_iff, float_le_iff]
    constructor
    · rintro ⟨ha, hb, hlt⟩
      exact ⟨ha, hb, fun hle => hlt.not_ge hle.2.2⟩
    · rintro ⟨ha, hb, hle⟩
      exact ⟨ha, hb, lt_of_not_ge fun h => hle ⟨hb, ha, h⟩⟩
  le_total a b ha hb := by
    rw [float_le_iff, float_le_iff]
    exact (le_total (key a.toModel.unpack) (key b.toModel.unpack)).imp
      (fun h => ⟨ha, hb, h⟩) fun h => ⟨hb, ha, h⟩
  le_trans a b c hab hbc := by
    rw [float_le_iff] at *
    exact ⟨hab.1, hbc.2.1, hab.2.2.trans hbc.2.2⟩
  isNaN_of_le a b h := by
    rw [float_le_iff] at h
    exact ⟨h.1, h.2.1⟩
  isNaN_of_isFinite a h := by
    show a.toModel.unpack.isNaN = false
    have h : a.toModel.unpack.isFinite = true := h
    cases hu : a.toModel.unpack <;> rw [hu] at h <;> first | rfl | cases h
  le_infinite a b ha hb hinf hpos := by
    have ha : a.toModel.unpack.isFinite = true := ha
    have hinf : b.toModel.unpack.isFinite = false := hinf
    rw [float_le_iff] at hpos ⊢
    have hkey : key (.zero .positive) ≤ key b.toModel.unpack := hpos.2.2
    refine ⟨?_, hb, ?_⟩
    · show a.toModel.unpack.isNaN = false
      cases hu : a.toModel.unpack <;> rw [hu] at ha <;> first | rfl | cases ha
    · have hb : b.toModel.unpack.isNaN = false := hb
      cases hu : b.toModel.unpack with
      | notANumber => rw [hu] at hb; cases hb
      | zero s => rw [hu] at hinf; cases hinf
      | finite s m e h => rw [hu] at hinf; cases hinf
      | infinity s =>
        rw [hu] at hkey
        cases s with
        | negative => exact absurd hkey (by decide)
        | positive => exact key_le_infinity _
  norm_nonneg xs h := by
    rw [float_le_iff]
    exact ⟨rfl, h, sqrt_nonneg _ h⟩
  le_mul_ten a h := by
    rw [float_lt_iff] at h
    have hc : ∀ s m e h, a.toModel.unpack = .finite s m e h → Canonical m e :=
      fun _ _ _ _ hu => canonical_unpack hu
    obtain ⟨hnan, hle⟩ := key_le_mul_ten a.toModel.unpack h.2.2 hc
    rw [float_le_iff]
    exact ⟨h.2.1, hnan, hle⟩

end Nodal
