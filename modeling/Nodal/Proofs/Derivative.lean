import Mathlib.Analysis.Calculus.Deriv.Abs
import Mathlib.Analysis.Calculus.Deriv.Pi
import Mathlib.Analysis.Calculus.FDeriv.Mul
import Mathlib.Analysis.SpecialFunctions.ExpDeriv
import Mathlib.Analysis.SpecialFunctions.Log.Basic
import Mathlib.Analysis.SpecialFunctions.Trigonometric.Basic
import Nodal.Proofs.Runs
import Nodal.Proofs.Slopes

/-! # The Jacobian is the derivative of the residual

Over the real numbers the laws of diode and transistor have no kink where their pieces meet. The
Jacobian of a tick equation is therefore the derivative of its residual everywhere. -/

namespace Nodal

/-- The real numbers with the elementary functions themselves. -/
noncomputable instance : ExactScalar ℝ where
  sqrt := Real.sqrt
  sqrt_nonneg a _ := Real.sqrt_nonneg a
  exp := Real.exp
  ln := Real.log
  sin := Real.sin
  halfTurn := Real.pi
  rootTwo := Real.sqrt (2 : Nat)

/-! ## Pieces that meet -/

/-- Two pieces with the same value and the same slope where they meet. -/
theorem hasDerivAt_pieces {f g : ℝ → ℝ} {c v d : ℝ} (hc : f c = g c)
    (hf : v ≤ c → HasDerivAt f d v) (hg : c ≤ v → HasDerivAt g d v) :
    HasDerivAt (fun y => if c < y then g y else f y) d v := by
  have hbelow : ∀ y ≤ c, (if c < y then g y else f y) = f y := fun y hy => if_neg (not_lt.2 hy)
  have habove : ∀ y, c ≤ y → (if c < y then g y else f y) = g y := by
    intro y hy
    rcases hy.lt_or_eq with h | rfl
    · exact if_pos h
    · rw [hbelow _ le_rfl, hc]
  rcases lt_trichotomy v c with h | rfl | h
  · refine (hf h.le).congr_of_eventuallyEq ?_
    filter_upwards [Iio_mem_nhds h] with y hy
    exact hbelow y (le_of_lt hy)
  · have hl : HasDerivWithinAt (fun y => if v < y then g y else f y) d (Set.Iic v) v :=
      (hf le_rfl).hasDerivWithinAt.congr hbelow (hbelow v le_rfl)
    have hr : HasDerivWithinAt (fun y => if v < y then g y else f y) d (Set.Ici v) v :=
      (hg le_rfl).hasDerivWithinAt.congr habove (habove v le_rfl)
    rw [← hasDerivWithinAt_univ, ← Set.Iic_union_Ici]
    exact hl.union hr
  · refine (hg h.le).congr_of_eventuallyEq ?_
    filter_upwards [Ioi_mem_nhds h] with y hy
    exact habove y (le_of_lt hy)

theorem hasDerivAt_max_sq (v : ℝ) : HasDerivAt (fun y : ℝ => max y 0 ^ 2) (2 * max v 0) v := by
  have hpieces : (fun y : ℝ => max y 0 ^ 2) = fun y => if 0 < y then y ^ 2 else 0 := by
    funext y
    split
    · rename_i h
      rw [max_eq_left h.le]
    · rename_i h
      rw [max_eq_right (not_lt.1 h), zero_pow two_ne_zero]
  rw [hpieces]
  refine hasDerivAt_pieces (by simp) (fun h => ?_) fun h => ?_
  · rw [max_eq_right h, mul_zero]
    exact hasDerivAt_const v 0
  · rw [max_eq_left h]
    simpa using hasDerivAt_pow 2 v

/-- The exponential goes over into its tangent. -/
theorem DiodeParams.hasDerivAt_current (p : DiodeParams ℝ) (v : ℝ) :
    HasDerivAt p.current (p.conductance v) v := by
  set i := p.saturationCurrent
  set n := p.scaleVoltage
  set c := p.criticalVoltage
  have hcurrent : p.current = fun y => if c < y then
      i * (Real.exp (c / n) - 1) + i / n * Real.exp (c / n) * (y - c)
    else i * (Real.exp (y / n) - 1) := rfl
  have hslope : p.conductance v = i / n * Real.exp (min v c / n) := by
    rw [← Scalar.min_exact]
    rfl
  have hexp : HasDerivAt (fun y => i * (Real.exp (y / n) - 1)) (i / n * Real.exp (v / n)) v := by
    have h := (((hasDerivAt_id v).div_const n).exp.sub_const 1).const_mul i
    refine h.congr_deriv ?_
    simp only [id]
    ring
  have htangent : HasDerivAt
      (fun y => i * (Real.exp (c / n) - 1) + i / n * Real.exp (c / n) * (y - c))
      (i / n * Real.exp (c / n)) v := by
    have h := ((hasDerivAt_id v).sub_const c).const_mul (i / n * Real.exp (c / n))
    simpa using h.const_add (i * (Real.exp (c / n) - 1))
  rw [hcurrent, hslope]
  refine hasDerivAt_pieces (by ring) (fun h => ?_) fun h => ?_
  · rw [min_eq_left h]
    exact hexp
  · rw [min_eq_right h]
    exact htangent

section Flow
variable {E : Type} [NormedAddCommGroup E] [NormedSpace ℝ E] {x : E}

/-- A factor that is zero needs no derivative of the other one. -/
theorem hasFDerivAt_mul_of_eq_zero {a b : E → ℝ} {b' : E →L[ℝ] ℝ} (ha : ContinuousAt a x)
    (hb : HasFDerivAt b b' x) (h0 : b x = 0) : HasFDerivAt (fun y => b y * a y) (a x • b') x := by
  have hsmall : (fun y => (a y - a x) • b y) =o[nhds x] fun y => (1 : ℝ) • (y - x) := by
    have hbig : b =O[nhds x] fun y => y - x := by simpa [h0] using hb.isBigO_sub
    have hlim : (fun y => a y - a x) =o[nhds x] fun _ => (1 : ℝ) :=
      (Asymptotics.isLittleO_one_iff ℝ).2 (by simpa using ha.sub_const (a x))
    exact hlim.smul_isBigO hbig
  simp only [one_smul, smul_eq_mul] at hsmall
  refine .of_isLittleO (((hb.isLittleO.const_mul_left (a x)).add hsmall).congr_left fun y => ?_)
  simp only [h0, smul_apply, smul_eq_mul]
  ring

variable {u w : E → ℝ} {u' w' : E →L[ℝ] ℝ}

theorem MosfetParams.hasFDerivAt_flow (p : MosfetParams ℝ) (hu : HasFDerivAt u u' x)
    (hw : HasFDerivAt w w' x) :
    HasFDerivAt (fun y => p.flow (u y) (w y))
      (p.flowSlope (u x) (w x) • u' - p.flowSlope (w x) (u x) • w') x := by
  have hsq : HasFDerivAt (fun y => p.gain / 2 * (max (u y) 0 ^ 2 - max (w y) 0 ^ 2))
      ((p.gain * max (u x) 0) • u' - (p.gain * max (w x) 0) • w') x := by
    have h := (((hasDerivAt_max_sq (u x)).comp_hasFDerivAt x hu).sub
      ((hasDerivAt_max_sq (w x)).comp_hasFDerivAt x hw)).const_mul (p.gain / 2)
    refine h.congr_fderiv ?_
    module
  show HasFDerivAt
    (fun y => p.gain / 2 * (max (u y) 0 ^ 2 - max (w y) 0 ^ 2) * (1 + p.lambda * |u y - w y|)) _ x
  by_cases h : u x = w x
  · -- the distance has a kink here, but the squares cancel
    have hzero : p.gain / 2 * (max (u x) 0 ^ 2 - max (w x) 0 ^ 2) = 0 := by rw [h]; ring
    have hcont : ContinuousAt (fun y => 1 + p.lambda * |u y - w y|) x :=
      continuousAt_const.add (continuousAt_const.mul (hu.continuousAt.sub hw.continuousAt).abs)
    refine (hasFDerivAt_mul_of_eq_zero hcont hsq hzero).congr_fderiv ?_
    simp only [flowSlope, h]
    module
  · have habs : HasFDerivAt (fun y => 1 + p.lambda * |u y - w y|)
        ((p.lambda * SignType.sign (u x - w x)) • (u' - w')) x := by
      have h := ((hasDerivAt_abs (sub_ne_zero.2 h)).comp_hasFDerivAt x
        (hu.sub hw)).const_mul p.lambda
      refine (h.const_add 1).congr_fderiv ?_
      module
    refine (hsq.mul habs).congr_fderiv ?_
    rcases lt_or_gt_of_ne h with hlt | hlt
    · rw [sign_neg (sub_neg.2 hlt), flowSlope, flowSlope, if_neg (not_le.2 hlt), if_pos hlt.le,
        abs_sub_comm (w x)]
      simp only [SignType.coe_neg_one]
      module
    · rw [sign_pos (sub_pos.2 hlt), flowSlope, flowSlope, if_pos hlt.le, if_neg (not_le.2 hlt),
        abs_sub_comm (w x)]
      simp only [SignType.coe_one]
      module

end Flow

/-! ## Rows as functions of the unknowns -/

/-- The linear form with these coefficients. -/
noncomputable def linearForm (n : Nat) (g : Nat → ℝ) : (Fin n → ℝ) →L[ℝ] ℝ :=
  ∑ j : Fin n, g j • ContinuousLinearMap.proj j

section Forms
variable {n : Nat}

theorem linearForm_apply (g : Nat → ℝ) (v : Fin n → ℝ) :
    linearForm n g v = ∑ j : Fin n, g j * v j := by
  simp [linearForm]

theorem linearForm_add (g g' : Nat → ℝ) :
    linearForm n (fun j => g j + g' j) = linearForm n g + linearForm n g' := by
  ext v
  simp [linearForm_apply, add_mul, Finset.sum_add_distrib]

theorem linearForm_sub (g g' : Nat → ℝ) :
    linearForm n (fun j => g j - g' j) = linearForm n g - linearForm n g' := by
  ext v
  simp [linearForm_apply, sub_mul]

theorem linearForm_smul (a : ℝ) (g : Nat → ℝ) :
    linearForm n (fun j => a * g j) = a • linearForm n g := by
  ext v
  simp [linearForm_apply, mul_assoc, Finset.mul_sum]

theorem getD_ofFn (v : Fin n → ℝ) (j : Fin n) : (List.ofFn v).getD j 0 = v j := by
  simp [List.getD_eq_getElem?_getD]

theorem rowSum_ofFn {m : Matrix ℝ} (hm : m.size = n) (v : Fin n → ℝ) (i : Nat) :
    m.rowSum (List.ofFn v) i = linearForm n (m.entry i) v := by
  subst hm
  rw [Matrix.rowSum, Finset.sum_range, linearForm_apply]
  exact Finset.sum_congr rfl fun j _ => by rw [getD_ofFn]

theorem voltageIn_ofFn (v : Fin n → ℝ) (node : Node) :
    voltageIn (List.ofFn v) node = linearForm n (atRow node.row? 1) v := by
  rw [voltageIn, linearForm_apply]
  cases node.row? with
  | none => simp [unknownAt, atRow]
  | some k =>
    by_cases hk : k < n
    · have hone : ∀ j : Fin n, atRow (some k) (1 : ℝ) j * v j = if ⟨k, hk⟩ = j then v j else 0 := by
        intro j
        simp [atRow, Fin.ext_iff]
      rw [Finset.sum_congr rfl fun j _ => hone j, Finset.sum_ite_eq, if_pos (Finset.mem_univ _)]
      exact getD_ofFn v ⟨k, hk⟩
    · have hzero : ∀ j : Fin n, atRow (some k) (1 : ℝ) j * v j = 0 := by
        intro j
        have hne : ¬ k = j := fun h => hk (h ▸ j.isLt)
        simp [atRow, hne]
      rw [Finset.sum_congr rfl fun j _ => hzero j, Finset.sum_const_zero]
      simp [unknownAt, List.getD_eq_getElem?_getD, hk]

theorem pairVoltage_ofFn (v : Fin n → ℝ) (a b : Node) :
    voltageIn (List.ofFn v) a - voltageIn (List.ofFn v) b = linearForm n (pathRow a b 1) v := by
  rw [voltageIn_ofFn, voltageIn_ofFn]
  simp [linearForm_apply, pathRow, sub_mul]

theorem leakRow_ofFn {l : Layout} (gmin : ℝ) (v : Fin l.size → ℝ) (i : Fin l.size) :
    Equation.leakRow l gmin (List.ofFn v) i =
      linearForm l.size (Equation.leakSlope l gmin i) v := by
  have hone : ∀ j : Fin l.size, Equation.leakSlope l gmin i j * v j =
      if i = j then (if (i : Nat) < l.numNodes - 1 then gmin * v i else 0) else 0 := by
    intro j
    by_cases hij : i = j
    · subst hij
      simp [Equation.leakSlope]
    · simp [Equation.leakSlope, hij, Fin.val_inj]
  rw [linearForm_apply, Finset.sum_congr rfl fun j _ => hone j, Finset.sum_ite_eq,
    if_pos (Finset.mem_univ _), Equation.leakRow, getD_ofFn]

end Forms

theorem pathRow_eq_mul (a b : Node) (g : ℝ) (i : Nat) : pathRow a b g i = pathRow a b 1 i * g := by
  simp only [pathRow, atRow]
  split_ifs <;> ring

theorem atRow_eq_mul (row : Option Nat) (g : ℝ) (i : Nat) : atRow row g i = g * atRow row 1 i := by
  simp [atRow]

section Components
variable {n k : Nat} {l : Layout}

theorem hasFDerivAt_diode (id : ComponentId) (name : String) (anode cathode : Node)
    (params : DiodeParams ℝ) (time : ℝ) (v : Fin n → ℝ) (i : Nat) :
    let d : Component ℝ := ⟨id, name, .diode anode cathode params⟩
    HasFDerivAt (fun v => d.contribution l time (d.tickState ⟨0 :: List.ofFn v, k⟩ none) i)
      (linearForm n (d.slope (List.ofFn v) i)) v := by
  intro d
  let drop := linearForm n (pathRow anode cathode 1)
  have hrow : ∀ v, d.contribution l time (d.tickState ⟨0 :: List.ofFn v, k⟩ none) i =
      pathRow anode cathode 1 i * params.current (drop v) := by
    intro v
    rw [← pathRow_eq_mul, ← pairVoltage_ofFn, Component.contribution_path rfl rfl rfl,
      Solution.voltage_eq, Solution.voltage_eq]
  have hslope : d.slope (List.ofFn v) i =
      fun j => pathRow anode cathode 1 i *
        (params.conductance (drop v) * pathRow anode cathode 1 j) := by
    funext j
    simp only [d, Component.slope, pairVoltage_ofFn]
    rw [pathRow_eq_mul, pathRow_eq_mul anode cathode _ j]
    ring
  have h := ((params.hasDerivAt_current (drop v)).comp_hasFDerivAt v drop.hasFDerivAt).const_mul
    (pathRow anode cathode 1 i)
  rw [hslope, linearForm_smul, linearForm_smul]
  exact h.congr_of_eventuallyEq (.of_forall hrow)

theorem polarity_mul_self (channel : Channel) : (channel.polarity : ℝ) * channel.polarity = 1 := by
  cases channel <;> simp [Channel.polarity]

theorem hasFDerivAt_mosfet (id : ComponentId) (name : String) (drain gate source : Node)
    (channel : Channel) (params : MosfetParams ℝ) (time : ℝ) (v : Fin n → ℝ) (i : Nat) :
    let d : Component ℝ := ⟨id, name, .mosfet drain gate source channel params⟩
    HasFDerivAt (fun v => d.contribution l time (d.tickState ⟨0 :: List.ofFn v, k⟩ none) i)
      (linearForm n (d.slope (List.ofFn v) i)) v := by
  intro d
  let u := fun v => channel.polarity * linearForm n (pathRow gate source 1) v - params.vth
  let w := fun v => channel.polarity * linearForm n (pathRow gate drain 1) v - params.vth
  have hpoint : ∀ v, params.operatingPoint channel (voltageIn (List.ofFn v) drain)
      (voltageIn (List.ofFn v) gate) (voltageIn (List.ofFn v) source) =
        ⟨channel.polarity * params.flow (u v) (w v), params.flowSlope (w v) (u v),
          params.flowSlope (u v) (w v) - params.flowSlope (w v) (u v),
          -params.flowSlope (u v) (w v)⟩ := by
    intro v
    refine params.operatingPoint_eq channel ?_ ?_
    · rw [pairVoltage_ofFn]
      exact (sub_add_cancel ..).symm
    · rw [pairVoltage_ofFn]
      exact (sub_add_cancel ..).symm
  have hrow : ∀ v, d.contribution l time (d.tickState ⟨0 :: List.ofFn v, k⟩ none) i =
      pathRow drain source 1 i * (channel.polarity * params.flow (u v) (w v)) := by
    intro v
    rw [← pathRow_eq_mul, Component.contribution_path rfl rfl rfl, Solution.voltage_eq,
      Solution.voltage_eq, Solution.voltage_eq, hpoint]
  have hslope : d.slope (List.ofFn v) i = fun j => pathRow drain source 1 i *
      (params.flowSlope (u v) (w v) * pathRow gate source 1 j -
        params.flowSlope (w v) (u v) * pathRow gate drain 1 j) := by
    funext j
    simp only [d, Component.slope, hpoint]
    rw [pathRow_eq_mul, pathRow_eq_mul drain source (atRow gate.row? _ j),
      pathRow_eq_mul drain source (atRow source.row? _ j), atRow_eq_mul drain.row?,
      atRow_eq_mul gate.row?, atRow_eq_mul source.row?, pathRow, pathRow, pathRow]
    ring
  have hu : HasFDerivAt u (channel.polarity • linearForm n (pathRow gate source 1)) v :=
    ((linearForm n (pathRow gate source 1)).hasFDerivAt.const_mul _).sub_const _
  have hw : HasFDerivAt w (channel.polarity • linearForm n (pathRow gate drain 1)) v :=
    ((linearForm n (pathRow gate drain 1)).hasFDerivAt.const_mul _).sub_const _
  have h := ((params.hasFDerivAt_flow hu hw).const_mul channel.polarity).const_mul
    (pathRow drain source 1 i)
  rw [hslope, linearForm_smul, linearForm_sub, linearForm_smul, linearForm_smul]
  refine (h.congr_fderiv ?_).congr_of_eventuallyEq (.of_forall hrow)
  -- the sign of the polarity occurs twice
  have hsign : ∀ (c : ℝ) (f : (Fin n → ℝ) →L[ℝ] ℝ),
      (channel.polarity : ℝ) • c • (channel.polarity : ℝ) • f = c • f := by
    intro c f
    rw [smul_comm c, smul_smul, polarity_mul_self, one_smul]
  rw [smul_sub, hsign, hsign]

end Components

theorem Component.hasFDerivAt_contribution {n k : Nat} {l : Layout} {d : Component ℝ}
    (hd : d.device.isNonlinear) (time : ℝ) (v : Fin n → ℝ) (i : Nat) :
    HasFDerivAt (fun v => d.contribution l time (d.tickState ⟨0 :: List.ofFn v, k⟩ none) i)
      (linearForm n (d.slope (List.ofFn v) i)) v := by
  obtain ⟨id, name, device⟩ := d
  cases device with
  | diode anode cathode params => exact hasFDerivAt_diode id name anode cathode params time v i
  | mosfet drain gate source channel params =>
    exact hasFDerivAt_mosfet id name drain gate source channel params time v i
  | _ => cases hd

theorem hasFDerivAt_contributions {n k : Nat} {l : Layout} {elements : List (Component ℝ)}
    (hnl : ∀ d ∈ elements, d.device.isNonlinear) (time : ℝ) (v : Fin n → ℝ) (i : Nat) :
    HasFDerivAt (fun v => (elements.map fun d =>
        d.contribution l time (d.tickState ⟨0 :: List.ofFn v, k⟩ none) i).sum)
      (linearForm n fun j => (elements.map fun d => d.slope (List.ofFn v) i j).sum) v := by
  induction elements with
  | nil =>
    have hzero : linearForm n (fun _ => 0) = 0 := by
      ext v
      simp [linearForm_apply]
    simpa [hzero] using hasFDerivAt_const (0 : ℝ) v
  | cons d elements ih =>
    have hd :=
      Component.hasFDerivAt_contribution (k := k) (l := l) (hnl d List.mem_cons_self) time v i
    have hrest := ih fun d hd => hnl d (List.mem_cons_of_mem _ hd)
    simp only [List.map_cons, List.sum_cons, linearForm_add]
    exact hd.add hrest

namespace Equation
variable {l : Layout} {e : Equation ℝ}

theorem hasFDerivAt_defect (he : e.Fits l) (v : Fin l.size → ℝ) (i : Nat) :
    HasFDerivAt (fun v => e.defect (List.ofFn v) i)
      (linearForm l.size (e.admittances.entry i)) v := by
  simp only [defect, rowSum_ofFn he.size_eq]
  exact (linearForm l.size (e.admittances.entry i)).hasFDerivAt.sub_const _

/-- Residual and Jacobian can be evaluated everywhere, and every row of the Jacobian is the
derivative of that of the residual. -/
theorem rows_have_derivatives {n : Nat} (hn : n = l.size) (he : e.Fits l)
    {elements : List (Component ℝ)} (hfits : ∀ d ∈ elements, d.Fits l ∧ d.device.isNonlinear)
    (gmin : ℝ) :
    ∃ f : (Fin n → ℝ) → Fin n → ℝ,
      (∀ x, e.residual elements gmin (List.ofFn x) = .ok (List.ofFn (f x))) ∧
      ∀ x, ∃ m, e.jacobian elements gmin (List.ofFn x) = .ok m ∧ m.size = n ∧
        ∀ i : Fin n, HasFDerivAt (fun x => f x i) (linearForm n (m.entry i)) x := by
  subst hn
  have hlen : ∀ x : Fin l.size → ℝ, l.numNodes - 1 ≤ (List.ofFn x).length := by
    intro x
    rw [List.length_ofFn]
    exact Nat.le_add_right ..
  refine ⟨fun x i => e.defect (List.ofFn x) i + leakRow l gmin (List.ofFn x) i +
    (elements.map fun d =>
      d.contribution l 0 (d.tickState ⟨0 :: List.ofFn x, l.numNodes⟩ none) i).sum,
    fun x => ?_, fun x => ?_⟩
  · rw [residual_rows he hfits gmin 0 (hlen x)]
    congr 1
    exact List.ext_getElem (by simp) fun i h1 h2 => by simp
  · obtain ⟨m, hm, hs, hentry⟩ := jacobian_entries he (fun d hd => (hfits d hd).1) gmin (hlen x)
    refine ⟨m, hm, hs, fun i => ?_⟩
    have hrow : linearForm l.size (m.entry i) = linearForm l.size fun j =>
        e.admittances.entry i j +
          (leakSlope l gmin i j + (elements.map fun d => d.slope (List.ofFn x) i j).sum) := by
      ext v
      simp only [linearForm_apply]
      exact Finset.sum_congr rfl fun j _ => by rw [hentry i j j.isLt]
    rw [hrow, linearForm_add, linearForm_add, ← add_assoc]
    refine ((hasFDerivAt_defect he x i).add ?_).add
      (hasFDerivAt_contributions (fun d hd => (hfits d hd).2) 0 x i)
    simp only [leakRow_ofFn]
    exact (linearForm l.size (leakSlope l gmin i)).hasFDerivAt

end Equation

namespace Circuit

/-- The Jacobian of every tick equation is the derivative of its residual, wherever it is taken: as
a linear map, and cell by cell as the slopes along the single unknowns. -/
theorem jacobian_is_derivative {c : Circuit ℝ} {e₀ e : Equation ℝ} {timestep time : ℝ}
    {previous : CircuitState ℝ} {companions : Companions ℝ} (hc : c.Built)
    (hs : c.staticEquation = .ok e₀)
    (ht : c.stampTick timestep time previous e₀ = .ok companions e) (gmin : ℝ) :
    ∃ f : (Fin e.size → ℝ) → Fin e.size → ℝ,
      (∀ x, e.residual c.nonlinear gmin (List.ofFn x) = .ok (List.ofFn (f x))) ∧
      ∀ x, ∃ m, e.jacobian c.nonlinear gmin (List.ofFn x) = .ok m ∧ m.size = e.size ∧
        HasFDerivAt f (ContinuousLinearMap.pi fun i => linearForm e.size (m.entry i)) x ∧
        ∀ i j : Fin e.size, ∃ slope, m.get i j = .ok slope ∧
          HasDerivAt (fun t => f (Function.update x j t) i) slope (x j) := by
  obtain ⟨cs, hc⟩ := hc
  obtain ⟨l, h⟩ := stamped_of_stampTick (numbered_of_ofComponents hc) hs ht
  have hsize : e.size = l.size := h.equation.length_eq
  obtain ⟨f, hf, hjacobian⟩ :=
    Equation.rows_have_derivatives hsize h.equation (fits_nonlinear h.circuit) gmin
  refine ⟨f, hf, fun x => ?_⟩
  obtain ⟨m, hm, hms, hrows⟩ := hjacobian x
  refine ⟨m, hm, hms, hasFDerivAt_pi.2 hrows, fun i j => ⟨m.entry i j, ?_, ?_⟩⟩
  · have hlimit : m.size < Equation.sizeLimit := by
      rw [hms, hsize]
      exact l.size_lt
    exact m.get_ok (i.isLt.trans_eq hms.symm) (j.isLt.trans_eq hms.symm) hlimit
  · have hx : Function.update x j (x j) = x := Function.update_eq_self j x
    have hrow := hrows i
    rw [← hx] at hrow
    have h := hrow.comp_hasDerivAt (x j) (hasDerivAt_update x j (x j))
    refine h.congr_deriv ?_
    simp [linearForm_apply, Pi.single_apply]

/-- A diode beside a transistor whose gate is tied to the drain. -/
def tied : List (Component ℝ) :=
  [⟨⟨0⟩, "D0", .diode ⟨1⟩ .ground ⟨1, 1⟩⟩,
    ⟨⟨1⟩, "M1", .mosfet ⟨1⟩ ⟨1⟩ .ground .nmos ⟨1, 1, 1, 1, 1, 1⟩⟩]

/-- Nothing is stamped for it, apart from its nonlinear currents. -/
noncomputable def tiedEquation : Equation ℝ := ⟨.zeros 1, [0], 2, 0, 0⟩

theorem staticEquation_tied : (⟨tied, 2, 0⟩ : Circuit ℝ).staticEquation = .ok tiedEquation := by
  have hvalid : (⟨tied, 2, 0⟩ : Circuit ℝ).validate = .ok () := rfl
  have hblank : Equation.blank 2 0 = .ok tiedEquation := rfl
  have hchecks : (tied.forM Component.stamp).run tiedEquation = .ok () tiedEquation := by
    simp [tied, Component.stamp, DiodeParams.check, MosfetParams.check, requirePositive,
      requireFinite, requireNonnegative, Stamping.check]
  simp only [staticEquation, hvalid, hblank, hchecks, Outcome.ok_bind, Outcome.pure_eq_ok]

theorem stampTick_tied :
    (⟨tied, 2, 0⟩ : Circuit ℝ).stampTick 1 0 [] tiedEquation = .ok [] tiedEquation := by
  unfold stampTick
  rw [if_pos (by simp)]
  rfl

theorem jacobian_is_derivative_tied :
    ∃ (f : (Fin 1 → ℝ) → Fin 1 → ℝ) (m : Matrix ℝ) (slope : ℝ),
      tiedEquation.residual tied 1 [0] = .ok [f (fun _ => 0) 0] ∧
      tiedEquation.jacobian tied 1 [0] = .ok m ∧ m.get 0 0 = .ok slope ∧
      HasDerivAt (fun t => f (fun _ => t) 0) slope 0 := by
  have hpath : ∀ f : (Fin 1 → ℝ) → Fin 1 → ℝ,
      (fun t => f (Function.update (fun _ => 0) 0 t) 0) = fun t => f (fun _ => t) 0 := by
    intro f
    funext t
    congr 1
    funext i
    rw [Subsingleton.elim i 0, Function.update_self]
  obtain ⟨f, hf, hjacobian⟩ :=
    jacobian_is_derivative (c := ⟨tied, 2, 0⟩) ⟨tied, rfl⟩ staticEquation_tied stampTick_tied 1
  obtain ⟨m, hm, -, -, hslopes⟩ := hjacobian fun _ => 0
  obtain ⟨slope, hget, hderiv⟩ := hslopes (0 : Fin 1) (0 : Fin 1)
  exact ⟨f, m, slope, hf fun _ => 0, hm, hget,
    (congrArg (HasDerivAt · slope 0) (hpath f)).mp hderiv⟩

end Circuit

end Nodal
