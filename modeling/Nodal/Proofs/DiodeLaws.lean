import Mathlib.Analysis.Calculus.Deriv.MeanValue
import Nodal.Proofs.ChannelLaws
import Nodal.Proofs.Derivative

/-! # The laws of a diode

The current of a diode grows with the voltage, also where the exponential goes over into its
tangent, and in reverse it stays between zero and the saturation current. Forward the tangent
matters. It lies below the exponential, so when it begins in reverse already the current is still
below zero without a voltage, and the diode delivers power until the tangent has come up.
Parameters with such a tangent are accepted: a diode is passive exactly when its saturation current
is small enough. -/

namespace Nodal.DiodeParams

/-- What the law needs of the parameters. -/
structure Sound (p : DiodeParams ℝ) : Prop where
  saturation_pos : 0 < p.saturationCurrent
  scale_pos : 0 < p.scaleVoltage

/-- No current without a voltage, forward current at forward voltages, and no power is delivered. -/
structure Passive (p : DiodeParams ℝ) : Prop where
  rest : p.current 0 = 0
  forward : ∀ v, 0 < v → 0 < p.current v
  dissipates : ∀ v, 0 ≤ p.current v * v

variable {p : DiodeParams ℝ}

theorem check_eq_ok {component : String} :
    p.check component = .ok () ↔ 0 < p.saturationCurrent ∧ 0 < p.ideality := by
  refine Outcome.bind_eq_ok.trans ⟨?_, ?_⟩
  · rintro ⟨_, hsaturation, hideality⟩
    exact ⟨requirePositive_eq_ok.1 hsaturation, requirePositive_eq_ok.1 hideality⟩
  · rintro ⟨hsaturation, hideality⟩
    exact ⟨(), requirePositive_eq_ok.2 hsaturation, requirePositive_eq_ok.2 hideality⟩

theorem sound_of_check {component : String} (h : p.check component = .ok ()) : p.Sound := by
  obtain ⟨hsaturation, hideality⟩ := check_eq_ok.1 h
  refine ⟨hsaturation, mul_pos hideality ?_⟩
  norm_num [thermalVoltage]

/-- The current along the exponential, also beyond the critical voltage. -/
noncomputable def exponentialCurrent (p : DiodeParams ℝ) (v : ℝ) : ℝ :=
  p.saturationCurrent * (Real.exp (v / p.scaleVoltage) - 1)

theorem current_of_le {v : ℝ} (h : v ≤ p.criticalVoltage) : p.current v = p.exponentialCurrent v :=
  if_neg (not_lt.2 h)

/-- The tangent, written from its height above the saturation current. -/
theorem current_of_lt {v : ℝ} (h : p.criticalVoltage < v) :
    p.current v = p.saturationCurrent * (Real.exp (p.criticalVoltage / p.scaleVoltage) *
      ((v - p.criticalVoltage) / p.scaleVoltage + 1) - 1) := by
  refine (if_pos h).trans ?_
  show p.saturationCurrent * (Real.exp (p.criticalVoltage / p.scaleVoltage) - 1) +
    p.saturationCurrent / p.scaleVoltage * Real.exp (p.criticalVoltage / p.scaleVoltage) *
      (v - p.criticalVoltage) = _
  ring

namespace Sound
variable (hp : p.Sound) {v : ℝ}
include hp

theorem conductance_pos (v : ℝ) : 0 < p.conductance v :=
  mul_pos (div_pos hp.saturation_pos hp.scale_pos) (Real.exp_pos _)

theorem current_strictMono : StrictMono p.current :=
  strictMono_of_hasDerivAt_pos p.hasDerivAt_current hp.conductance_pos

/-- The tangent lies below the exponential. -/
theorem current_lt_exponential (h : p.criticalVoltage < v) :
    p.current v < p.exponentialCurrent v := by
  have hstep : (v - p.criticalVoltage) / p.scaleVoltage ≠ 0 :=
    (div_pos (sub_pos.2 h) hp.scale_pos).ne'
  have hexp : Real.exp (v / p.scaleVoltage) = Real.exp (p.criticalVoltage / p.scaleVoltage) *
      Real.exp ((v - p.criticalVoltage) / p.scaleVoltage) := by
    rw [← Real.exp_add, ← add_div, add_sub_cancel]
  rw [current_of_lt h, exponentialCurrent, hexp]
  refine mul_lt_mul_of_pos_left (sub_lt_sub_right ?_ 1) hp.saturation_pos
  exact mul_lt_mul_of_pos_left (Real.add_one_lt_exp hstep) (Real.exp_pos _)

theorem current_le_exponential (v : ℝ) : p.current v ≤ p.exponentialCurrent v := by
  rcases le_or_gt v p.criticalVoltage with h | h
  · exact (current_of_le h).le
  · exact (hp.current_lt_exponential h).le

theorem exponential_neg (h : v < 0) : p.exponentialCurrent v < 0 := by
  have hexp : Real.exp (v / p.scaleVoltage) < 1 :=
    Real.exp_lt_one_iff.2 (div_neg_of_neg_of_pos h hp.scale_pos)
  exact mul_neg_of_pos_of_neg hp.saturation_pos (sub_neg.2 hexp)

theorem neg_saturation_lt_exponential (v : ℝ) : -p.saturationCurrent < p.exponentialCurrent v := by
  have hpos := mul_pos hp.saturation_pos (Real.exp_pos (v / p.scaleVoltage))
  rw [exponentialCurrent, mul_sub, mul_one]
  linarith

/-- In reverse less than the saturation current flows, and it flows in reverse. -/
theorem current_reverse (h : v < 0) : -p.saturationCurrent < p.current v ∧ p.current v < 0 := by
  refine ⟨?_, (hp.current_le_exponential v).trans_lt (hp.exponential_neg h)⟩
  rcases le_or_gt v p.criticalVoltage with hle | hlt
  · rw [current_of_le hle]
    exact hp.neg_saturation_lt_exponential v
  · calc -p.saturationCurrent < p.exponentialCurrent p.criticalVoltage :=
          hp.neg_saturation_lt_exponential _
      _ = p.current p.criticalVoltage := (current_of_le le_rfl).symm
      _ < p.current v := hp.current_strictMono hlt

/-! ## Where the tangent begins -/

theorem criticalVoltage_nonneg_iff :
    0 ≤ p.criticalVoltage ↔ √2 * p.saturationCurrent ≤ p.scaleVoltage := by
  have hroot : (Scalar.sqrtTwo : ℝ) = √2 := congrArg Real.sqrt Nat.cast_two
  have hpos : 0 < √2 * p.saturationCurrent :=
    mul_pos (Real.sqrt_pos.2 two_pos) hp.saturation_pos
  have hcritical : p.criticalVoltage =
      p.scaleVoltage * Real.log (p.scaleVoltage / (√2 * p.saturationCurrent)) := by
    rw [← hroot]
    rfl
  rw [hcritical, mul_nonneg_iff_of_pos_left hp.scale_pos,
    Real.log_nonneg_iff (div_pos hp.scale_pos hpos), one_le_div hpos]

theorem passive (h : 0 ≤ p.criticalVoltage) : p.Passive := by
  have hrest : p.current 0 = 0 := by
    rw [current_of_le h, exponentialCurrent, zero_div, Real.exp_zero, sub_self, mul_zero]
  refine ⟨hrest, fun v hv => hrest ▸ hp.current_strictMono hv, fun v => ?_⟩
  rcases lt_trichotomy v 0 with hv | rfl | hv
  · exact (mul_pos_of_neg_of_neg (hp.current_reverse hv).2 hv).le
  · rw [mul_zero]
  · exact (mul_pos (hrest ▸ hp.current_strictMono hv) hv).le

/-- A tangent that begins in reverse passes below the origin. -/
theorem current_zero_neg (h : p.criticalVoltage < 0) : p.current 0 < 0 := by
  have hlt := hp.current_lt_exponential h
  rwa [exponentialCurrent, zero_div, Real.exp_zero, sub_self, mul_zero] at hlt

/-- Such a tangent comes up to zero at a forward voltage, and power is delivered until then. -/
theorem exists_delivers (h : p.criticalVoltage < 0) :
    ∃ turn, 0 < turn ∧ p.current turn = 0 ∧ (∀ v, 0 < v → v < turn → p.current v * v < 0) ∧
      ∀ v, turn < v → 0 < p.current v := by
  set c := p.criticalVoltage
  set n := p.scaleVoltage
  have hneg := hp.current_zero_neg h
  have hturn : p.current (c + n * (Real.exp (-(c / n)) - 1)) = 0 := by
    have hlt : 1 < Real.exp (-(c / n)) :=
      Real.one_lt_exp_iff.2 (neg_pos.2 (div_neg_of_neg_of_pos h hp.scale_pos))
    have habove : c < c + n * (Real.exp (-(c / n)) - 1) :=
      lt_add_of_pos_right c (mul_pos hp.scale_pos (sub_pos.2 hlt))
    rw [current_of_lt habove, add_sub_cancel_left, mul_div_cancel_left₀ _ hp.scale_pos.ne',
      sub_add_cancel, ← Real.exp_add, add_neg_cancel, Real.exp_zero, sub_self, mul_zero]
  refine ⟨_, hp.current_strictMono.lt_iff_lt.1 (hturn ▸ hneg), hturn, fun v hv hlt => ?_,
    fun v hlt => hturn ▸ hp.current_strictMono hlt⟩
  exact mul_neg_of_neg_of_pos (hturn ▸ hp.current_strictMono hlt) hv

end Sound

/-- A diode whose parameters are accepted has a current that grows with the voltage and saturates in
reverse. It is passive exactly when the saturation current is not too large for the voltage that
makes the exponent grow by one; otherwise it delivers power at small forward voltages. -/
theorem diode_passive_iff {component : String} (hcheck : p.check component = .ok ()) :
    StrictMono p.current ∧ (∀ v, 0 < p.conductance v) ∧
    (∀ v, v < 0 → -p.saturationCurrent < p.current v ∧ p.current v < 0) ∧
    (p.Passive ↔ √2 * p.saturationCurrent ≤ p.scaleVoltage) ∧
    (p.scaleVoltage < √2 * p.saturationCurrent → p.current 0 < 0 ∧
      ∃ turn, 0 < turn ∧ p.current turn = 0 ∧ (∀ v, 0 < v → v < turn → p.current v * v < 0) ∧
        ∀ v, turn < v → 0 < p.current v) := by
  have hp := sound_of_check hcheck
  have hbegins : p.scaleVoltage < √2 * p.saturationCurrent → p.criticalVoltage < 0 := fun h =>
    not_le.1 fun hc => not_le.2 h (hp.criticalVoltage_nonneg_iff.1 hc)
  refine ⟨hp.current_strictMono, hp.conductance_pos, fun v hv => hp.current_reverse hv,
    ⟨fun hpassive => ?_, fun h => hp.passive (hp.criticalVoltage_nonneg_iff.2 h)⟩,
    fun h => ⟨hp.current_zero_neg (hbegins h), hp.exists_delivers (hbegins h)⟩⟩
  by_contra hlt
  exact (hp.current_zero_neg (hbegins (not_le.1 hlt))).ne hpassive.rest

/-- The standard diode is passive. -/
theorem diode_passive_iff_standard :
    (standard : DiodeParams ℝ).check "D1" = .ok () ∧ (standard : DiodeParams ℝ).Passive := by
  have hcheck : (standard : DiodeParams ℝ).check "D1" = .ok () :=
    check_eq_ok.2 ⟨by norm_num [standard], one_pos⟩
  refine ⟨hcheck, (diode_passive_iff hcheck).2.2.2.1.2 ?_⟩
  have hroot : √(2 : ℝ) ≤ 2 := Real.sqrt_le_iff.2 ⟨by norm_num, by norm_num⟩
  show √2 * (1e-14 : ℝ) ≤ 1 * (0.0258 : ℝ)
  linarith

/-- A saturation current of one ampere: without a voltage a current flows in reverse already, and at
some forward voltage it still does. -/
theorem large_saturation_delivers :
    let p : DiodeParams ℝ := ⟨1, 1⟩
    p.check "D1" = .ok () ∧ p.current 0 ≠ 0 ∧ ∃ v, 0 < v ∧ p.current v * v < 0 := by
  intro p
  have hcheck : p.check "D1" = .ok () := check_eq_ok.2 ⟨one_pos, one_pos⟩
  have hp := sound_of_check hcheck
  have hbegins : p.criticalVoltage < 0 := by
    rw [← not_le, hp.criticalVoltage_nonneg_iff]
    have hroot : (1 : ℝ) ≤ √2 := Real.one_le_sqrt.2 one_le_two
    show ¬ √2 * (1 : ℝ) ≤ 1 * (0.0258 : ℝ)
    linarith
  obtain ⟨turn, hturn, -, hdelivers, -⟩ := hp.exists_delivers hbegins
  exact ⟨hcheck, (hp.current_zero_neg hbegins).ne, turn / 2, half_pos hturn,
    hdelivers _ (half_pos hturn) (half_lt_self hturn)⟩

end Nodal.DiodeParams
