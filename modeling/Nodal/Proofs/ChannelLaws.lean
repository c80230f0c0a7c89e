import Nodal.Proofs.Contributions
import Nodal.Proofs.Slopes

/-! # The laws of a channel

The current through a transistor's channel is a flow, which depends on how far the gate is above the
threshold seen from each of the two ends. The flow turns round when the ends change parts, and grows
with the first of the two distances, across all regions. From this come the laws that make the
channel a passive part: it never delivers power, and its current never falls when the drain is
raised. -/

namespace Nodal
variable {α : Type} [ExactScalar α]

/-- The channel of the other charge. -/
def Channel.opposite : Channel → Channel
  | nmos => pmos
  | pmos => nmos

theorem Channel.polarity_opposite (channel : Channel) :
    (channel.opposite.polarity : α) = -channel.polarity := by
  cases channel
  · rfl
  · exact (neg_neg 1).symm

theorem requireNonnegative_eq_ok {component parameter : String} {v : α} :
    requireNonnegative component parameter v = .ok () ↔ 0 ≤ v := by
  unfold requireNonnegative
  split
  · rename_i h
    exact iff_of_true rfl (by simpa using h)
  · rename_i h
    exact iff_of_false nofun fun hv => h (by simpa using hv)

namespace MosfetParams
variable {p : MosfetParams α}

/-- What the flow needs of the parameters. -/
structure Sound (p : MosfetParams α) : Prop where
  gain_pos : 0 < p.gain
  lambda_nonneg : 0 ≤ p.lambda

theorem sound_of_check {component : String} (h : p.check component = .ok ()) : p.Sound := by
  obtain ⟨_, hwidth, h⟩ := Outcome.bind_eq_ok.1 h
  obtain ⟨_, hlength, h⟩ := Outcome.bind_eq_ok.1 h
  obtain ⟨_, hcox, h⟩ := Outcome.bind_eq_ok.1 h
  obtain ⟨_, hmobility, h⟩ := Outcome.bind_eq_ok.1 h
  obtain ⟨_, -, hlambda⟩ := Outcome.bind_eq_ok.1 h
  have hwidth := requirePositive_eq_ok.1 hwidth
  have hlength := requirePositive_eq_ok.1 hlength
  have hcox := requirePositive_eq_ok.1 hcox
  have hmobility := requirePositive_eq_ok.1 hmobility
  exact ⟨div_pos (mul_pos (mul_pos hmobility hcox) hwidth) hlength,
    requireNonnegative_eq_ok.1 hlambda⟩

/-! ## The flow -/

theorem max_sq_mono {u u' : α} (h : u ≤ u') : max u 0 ^ 2 ≤ max u' 0 ^ 2 :=
  pow_le_pow_left₀ (le_max_right u 0) (max_le_max_right 0 h) 2

namespace Sound
variable (hp : p.Sound) {u u' w w' : α}
include hp

theorem half_gain_nonneg : 0 ≤ p.gain / 2 := (half_pos hp.gain_pos).le

theorem one_le_stretch (u w : α) : 1 ≤ 1 + p.lambda * |u - w| :=
  le_add_of_nonneg_right (mul_nonneg hp.lambda_nonneg (abs_nonneg _))

theorem flow_nonneg (h : w ≤ u) : 0 ≤ p.flow u w :=
  mul_nonneg (mul_nonneg hp.half_gain_nonneg (sub_nonneg.2 (max_sq_mono h)))
    (zero_le_one.trans (hp.one_le_stretch u w))

theorem flow_nonpos (h : u ≤ w) : p.flow u w ≤ 0 := by
  rw [← neg_nonneg, ← p.flow_swap]
  exact hp.flow_nonneg h

/-- Between distances that lie further apart, both factors of the flow are larger. -/
theorem flow_widen (hw' : w' ≤ w) (hw : w ≤ u) (hu : u ≤ u') : p.flow u w ≤ p.flow u' w' := by
  have hstretch : 1 + p.lambda * |u - w| ≤ 1 + p.lambda * |u' - w'| := by
    rw [abs_of_nonneg (sub_nonneg.2 hw), abs_of_nonneg (sub_nonneg.2 ((hw'.trans hw).trans hu))]
    exact add_le_add_right (mul_le_mul_of_nonneg_left (sub_le_sub hu hw') hp.lambda_nonneg) 1
  have hcharge : p.gain / 2 * (max u 0 ^ 2 - max w 0 ^ 2) ≤
      p.gain / 2 * (max u' 0 ^ 2 - max w' 0 ^ 2) :=
    mul_le_mul_of_nonneg_left (sub_le_sub (max_sq_mono hu) (max_sq_mono hw')) hp.half_gain_nonneg
  have hcharge' : 0 ≤ p.gain / 2 * (max u' 0 ^ 2 - max w' 0 ^ 2) :=
    mul_nonneg hp.half_gain_nonneg (sub_nonneg.2 (max_sq_mono ((hw'.trans hw).trans hu)))
  exact mul_le_mul hcharge hstretch (zero_le_one.trans (hp.one_le_stretch u w)) hcharge'

theorem flow_mono (w : α) : Monotone fun u => p.flow u w := by
  intro u u' h
  rcases le_total w u with hw | hu
  · exact hp.flow_widen le_rfl hw h
  rcases le_total w u' with hw' | hu'
  · exact (hp.flow_nonpos hu).trans (hp.flow_nonneg hw')
  · -- both below: the flow the other way gets smaller
    simp only [p.flow_swap w]
    exact neg_le_neg (hp.flow_widen h hu' le_rfl)

theorem flow_anti (u : α) : Antitone fun w => p.flow u w := by
  intro w w' h
  simp only [p.flow_swap _ u]
  exact neg_le_neg (hp.flow_mono u h)

theorem flowSlope_nonneg (u w : α) : 0 ≤ p.flowSlope u w := by
  have hdirect : 0 ≤ p.gain * max u 0 * (1 + p.lambda * |u - w|) :=
    mul_nonneg (mul_nonneg hp.gain_pos.le (le_max_right u 0))
      (zero_le_one.trans (hp.one_le_stretch u w))
  rcases le_total w u with h | h
  · rw [flowSlope, if_pos h, mul_one]
    exact add_nonneg hdirect (mul_nonneg (mul_nonneg hp.half_gain_nonneg
      (sub_nonneg.2 (max_sq_mono h))) hp.lambda_nonneg)
  · rw [p.flowSlope_of_le h]
    rw [abs_sub_comm, abs_of_nonneg (sub_nonneg.2 h)] at hdirect
    exact add_nonneg hdirect (mul_nonneg (mul_nonneg hp.half_gain_nonneg
      (sub_nonneg.2 (max_sq_mono h))) hp.lambda_nonneg)

theorem flow_mul_nonneg (u w : α) : 0 ≤ p.flow u w * (u - w) := by
  rcases le_total w u with h | h
  · exact mul_nonneg (hp.flow_nonneg h) (sub_nonneg.2 h)
  · exact mul_nonneg_of_nonpos_of_nonpos (hp.flow_nonpos h) (sub_nonpos.2 h)

end Sound

/-! ## The operating point -/

/-- How far the gate is above the threshold, seen from one end of the channel. -/
def overdrive (p : MosfetParams α) (channel : Channel) (gate terminal : α) : α :=
  channel.polarity * (gate - terminal) - p.vth

section Overdrive
variable (p : MosfetParams α) (channel : Channel) (drain gate source : α)

theorem operatingPoint_overdrive : p.operatingPoint channel drain gate source =
    let u := p.overdrive channel gate source
    let w := p.overdrive channel gate drain
    ⟨channel.polarity * p.flow u w, p.flowSlope w u, p.flowSlope u w - p.flowSlope w u,
      -p.flowSlope u w⟩ :=
  p.operatingPoint_eq channel (sub_add_cancel ..).symm (sub_add_cancel ..).symm

theorem overdrive_opposite (terminal : α) :
    p.overdrive channel.opposite (-gate) (-terminal) = p.overdrive channel gate terminal := by
  rw [overdrive, overdrive, Channel.polarity_opposite]
  ring

theorem overdrive_sub : p.overdrive channel gate source - p.overdrive channel gate drain =
    channel.polarity * (drain - source) := by
  rw [overdrive, overdrive]
  ring

end Overdrive

/-- The laws of a channel, at all terminal voltages. -/
structure ObeysLaws (p : MosfetParams α) (channel : Channel) : Prop where
  swap : ∀ drain gate source, (p.operatingPoint channel source gate drain).drainCurrent =
    -(p.operatingPoint channel drain gate source).drainCurrent
  mirror : ∀ drain gate source,
    (p.operatingPoint channel.opposite (-drain) (-gate) (-source)).drainCurrent =
      -(p.operatingPoint channel drain gate source).drainCurrent
  /-- The channel never delivers power. -/
  dissipates : ∀ drain gate source,
    0 ≤ (p.operatingPoint channel drain gate source).drainCurrent * (drain - source)
  /-- Only voltages against each other matter. -/
  slopes_sum : ∀ drain gate source, let point := p.operatingPoint channel drain gate source
    point.alongDrain + point.alongGate + point.alongSource = 0
  alongDrain_nonneg : ∀ drain gate source,
    0 ≤ (p.operatingPoint channel drain gate source).alongDrain
  alongSource_nonpos : ∀ drain gate source,
    (p.operatingPoint channel drain gate source).alongSource ≤ 0
  mono_drain : ∀ gate source,
    Monotone fun drain => (p.operatingPoint channel drain gate source).drainCurrent
  anti_source : ∀ drain gate,
    Antitone fun source => (p.operatingPoint channel drain gate source).drainCurrent

section Laws
variable (p : MosfetParams α) (channel : Channel) (drain gate source : α)

theorem drainCurrent_swap : (p.operatingPoint channel source gate drain).drainCurrent =
    -(p.operatingPoint channel drain gate source).drainCurrent := by
  simp only [operatingPoint_overdrive]
  rw [p.flow_swap, mul_neg]

theorem drainCurrent_mirror :
    (p.operatingPoint channel.opposite (-drain) (-gate) (-source)).drainCurrent =
      -(p.operatingPoint channel drain gate source).drainCurrent := by
  simp only [operatingPoint_overdrive, overdrive_opposite, Channel.polarity_opposite, neg_mul]

end Laws

namespace Sound
variable (hp : p.Sound) (channel : Channel) (drain gate source : α)
include hp

theorem drainCurrent_mul_nonneg :
    0 ≤ (p.operatingPoint channel drain gate source).drainCurrent * (drain - source) := by
  have h := hp.flow_mul_nonneg (p.overdrive channel gate source) (p.overdrive channel gate drain)
  rw [overdrive_sub] at h
  simp only [operatingPoint_overdrive]
  linarith

/-- Raising the drain takes the overdrive seen from it down in an n-channel, whose current falls
with it, and up in a p-channel, whose current grows with it. -/
theorem drainCurrent_mono :
    Monotone fun drain => (p.operatingPoint channel drain gate source).drainCurrent := by
  intro drain drain' h
  simp only [operatingPoint_overdrive]
  cases channel with
  | nmos =>
    refine mul_le_mul_of_nonneg_left (hp.flow_anti _ ?_) zero_le_one
    exact sub_le_sub_right (mul_le_mul_of_nonneg_left (sub_le_sub_left h gate) zero_le_one) _
  | pmos =>
    refine mul_le_mul_of_nonpos_left (hp.flow_anti _ ?_) (neg_nonpos.2 zero_le_one)
    exact sub_le_sub_right
      (mul_le_mul_of_nonpos_left (sub_le_sub_left h gate) (neg_nonpos.2 zero_le_one)) _

end Sound

/-- A transistor whose parameters are accepted has a lawful channel. -/
theorem channel_obeys_laws {p : MosfetParams α} {component : String}
    (hcheck : p.check component = .ok ()) (channel : Channel) : p.ObeysLaws channel := by
  have hp := sound_of_check hcheck
  refine ⟨p.drainCurrent_swap channel, p.drainCurrent_mirror channel,
    hp.drainCurrent_mul_nonneg channel, ?_, ?_, ?_, hp.drainCurrent_mono channel, ?_⟩
  · intro drain gate source
    simp only [operatingPoint_overdrive]
    ring
  · intro drain gate source
    simp only [operatingPoint_overdrive]
    exact hp.flowSlope_nonneg _ _
  · intro drain gate source
    simp only [operatingPoint_overdrive]
    exact neg_nonpos.2 (hp.flowSlope_nonneg _ _)
  · intro drain gate source source' h
    -- raising the source is raising the drain of the channel turned round
    simp only [p.drainCurrent_swap channel _ gate drain]
    exact neg_le_neg (hp.drainCurrent_mono channel gate drain h)

/-- A p-channel with its source at the supply, saturated, and below the threshold. -/
theorem channel_obeys_laws_standard :
    let p : MosfetParams ℚ := .standard
    p.check "M1" = .ok () ∧ p.ObeysLaws .pmos ∧ (p.operatingPoint .pmos 1 3 5).drainCurrent < 0 ∧
      (p.operatingPoint .pmos 5 3 1).drainCurrent =
        -(p.operatingPoint .pmos 1 3 5).drainCurrent ∧
      (p.operatingPoint .pmos 1 3 5).drainCurrent ≤ (p.operatingPoint .pmos 4 3 5).drainCurrent ∧
      (p.operatingPoint .pmos 1 5 5).drainCurrent = 0 := by
  have hcheck : (MosfetParams.standard : MosfetParams ℚ).check "M1" = .ok () :=
    eq_ok_of_isOk (by decide +kernel)
  have hlaws := channel_obeys_laws hcheck .pmos
  refine ⟨hcheck, hlaws, by decide +kernel, hlaws.swap 1 3 5, ?_, by decide +kernel⟩
  exact hlaws.mono_drain 3 5 (by decide : (1 : ℚ) ≤ 4)

end MosfetParams

end Nodal
