import Nodal.Proofs.Settling

/-! # The scale of Newton steps

The scale of the steps starts at its upper bound and never exceeds it, since every round resets it
or caps it. While the growth factor is above zero it stays above zero too, so an accepted trial is
within the longest steps of its iterate; nothing checks the growth factor, and with another one the
scale leaves its range with the first trial that is accepted. -/

namespace Nodal.Newton
open Drawing

/-! ## Where rounds begin -/

section Rounds
variable {α ρ : Type} [Scalar α] [RandomSource ρ α] {s : NewtonSettings α}
  {system : NonlinearSystem α} {budget : Nat}

/-- The round goes on from the trial that it accepts, whatever the random numbers are. -/
theorem round_of_accepts {it : Iterate α} {trial : Trial α}
    (h : Accepts s system budget it trial) (d : Draws ρ) :
    ∃ best, round s system budget it d = .ok (.moved ⟨trial.x, nextAlpha s trial, best⟩) d := by
  obtain ⟨f, dx, first, hres, hmiss, hfinite, hstep, hfirst, htrial, himproves⟩ := h
  refine ⟨record it (Scalar.norm f), ?_⟩
  have hgo : ¬ (!Scalar.isFinite (Scalar.norm f)) = true := by simpa using hfinite
  have hfirst' : trialAtM system.residual it.x dx it.alpha = .ok first := hfirst
  have htrial' : lineSearchM system.residual s it.x dx (Scalar.norm f) budget first = .ok trial :=
    htrial
  unfold round roundM
  simp only [Runner.plain, bind, EStateM.bind, hres, ofOutcome, pure, EStateM.pure, if_neg hmiss,
    if_neg hgo, hstep, hfirst', htrial', if_pos himproves]
  rfl

/-- In an attempt with a number of rounds to go from an iterate, a round begins at `it'`, and `left`
rounds are to go after it. -/
inductive Begins (s : NewtonSettings α) (system : NonlinearSystem α) (budget : Nat) :
    Nat → Iterate α → Draws ρ → Nat → Iterate α → Prop
  | here {rounds : Nat} {it : Iterate α} {d : Draws ρ} :
      Begins s system budget (rounds + 1) it d rounds it
  | later {rounds left : Nat} {it next it' : Iterate α} {d d' : Draws ρ} :
      round s system budget it d = .ok (.moved next) d' →
      Begins s system budget rounds next d' left it' →
      Begins s system budget (rounds + 1) it d left it'

/-- What the rounds of an attempt keep of their iterates. -/
theorem Begins.induction {P : Iterate α → Prop}
    (hround : ∀ it next d d', P it →
      (round s system budget it d : EStateM.Result _ (Draws ρ) _) = .ok (.moved next) d' → P next)
    {rounds left : Nat} {it it' : Iterate α} {d : Draws ρ} (hit : P it)
    (h : Begins s system budget rounds it d left it') : P it' := by
  induction h with
  | here => exact hit
  | later hmoved _ ih => exact ih (hround _ _ _ _ hit hmoved)

/-- The next round after an accepted trial begins there. -/
theorem Begins.accepted {rounds left : Nat} {it it' : Iterate α} {d : Draws ρ} {trial : Trial α}
    (h : Begins s system budget rounds it d (left + 1) it')
    (htrial : Accepts s system budget it' trial) :
    ∃ best, Begins s system budget rounds it d left ⟨trial.x, nextAlpha s trial, best⟩ := by
  generalize hleft : left + 1 = more at h
  induction h with
  | @here rounds it d =>
    obtain ⟨best, hround⟩ := round_of_accepts htrial d
    subst hleft
    exact ⟨best, .later hround .here⟩
  | later hmoved _ ih =>
    obtain ⟨best, hbegins⟩ := ih htrial hleft
    exact ⟨best, .later hmoved hbegins⟩

/-- A first trial that is an improvement is accepted. -/
theorem accepts_first {it : Iterate α} {f dx : List α} {residual : α}
    (hres : system.residual it.x = .ok f) (hmiss : ¬ Scalar.norm f < s.tolerance)
    (hfinite : Scalar.isFinite (Scalar.norm f))
    (hstep : newtonStep? s system it.x f = .ok (some dx))
    (htrial : residualNorm system (scaledStep it.x dx it.alpha) = .ok residual)
    (himproves : residual < Scalar.norm f) :
    Accepts s system budget it ⟨it.alpha, scaledStep it.x dx it.alpha, residual⟩ := by
  obtain ⟨g, hg, htrial⟩ := Outcome.bind_eq_ok.1 htrial
  cases htrial
  have hfirst : trialAt system it.x dx it.alpha =
      .ok ⟨it.alpha, scaledStep it.x dx it.alpha, Scalar.norm g⟩ :=
    Outcome.bind_eq_ok.2 ⟨g, hg, rfl⟩
  exact ⟨f, dx, _, hres, hmiss, hfinite, hstep, hfirst,
    lineSearchM_stay (fun hgo => hgo.1 himproves) budget, himproves⟩

end Rounds

/-! ## Trials of a line search -/

section Steps
variable {α : Type} [Scalar α] {s : NewtonSettings α} {system : NonlinearSystem α}

theorem trialAt_inv {x dx : List α} {alpha : α} {t : Trial α}
    (h : trialAt system x dx alpha = .ok t) :
    t.alpha = alpha ∧ t.x = scaledStep x dx alpha ∧ residualNorm system t.x = .ok t.residual := by
  obtain ⟨f, hres, h⟩ := Outcome.bind_eq_ok.1 h
  cases h
  exact ⟨rfl, rfl, residualNorm_ok hres⟩

theorem newtonStep?_inv {x f dx : List α} (h : newtonStep? s system x f = .ok (some dx)) :
    ∃ jacobian steps, system.jacobian x = .ok jacobian ∧
      (jacobian.mapDiagonal (stabilize s.stabilityEps)).solve (f.map (- ·)) = .ok steps ∧
      clampSteps s system steps = .ok dx := by
  obtain ⟨jacobian, hjacobian, h⟩ := Outcome.bind_eq_ok.1 h
  split at h
  · rename_i steps hsteps
    obtain ⟨cut, hcut, h⟩ := Outcome.bind_eq_ok.1 h
    cases h
    exact ⟨jacobian, steps, hjacobian, hsteps, hcut⟩
  · cases h
  · cases h

end Steps

section Trials
variable {α ρ : Type} [ExactScalar α] [RandomSource ρ α] {s : NewtonSettings α}
  {system : NonlinearSystem α} {budget : Nat}

omit [RandomSource ρ α]

/-- What a line search ends with is the trial at the shrunk scale. -/
theorem lineSearch_inv {x dx : List α} {error : α} {t t' : Trial α}
    (ht : trialAt system x dx t.alpha = .ok t)
    (h : lineSearch s system x dx error budget t = .ok t') :
    ∃ j, t'.alpha = t.alpha * s.alphaShrink ^ j ∧ trialAt system x dx t'.alpha = .ok t' := by
  unfold lineSearch at h
  induction budget generalizing t with
  | zero =>
    by_cases hgo : ¬ t.residual < error ∧ s.minAlpha < t.alpha
    · rw [lineSearchM_zero hgo] at h
      cases h
    · rw [lineSearchM_stay hgo] at h
      cases h
      exact ⟨0, by rw [pow_zero, mul_one], ht⟩
  | succ budget ih =>
    by_cases hgo : ¬ t.residual < error ∧ s.minAlpha < t.alpha
    · rw [lineSearchM_succ hgo] at h
      obtain ⟨t₁, ht₁, h⟩ := Outcome.bind_eq_ok.1 h
      obtain ⟨halpha, -, -⟩ := trialAt_inv ht₁
      obtain ⟨j, hj, ht'⟩ := ih (by rw [halpha]; exact ht₁) h
      exact ⟨j + 1, by rw [hj, halpha, pow_succ', mul_assoc], ht'⟩
    · rw [lineSearchM_stay hgo] at h
      cases h
      exact ⟨0, by rw [pow_zero, mul_one], ht⟩

theorem abs_clampStep_le {longest step v : α} (h : clampStep longest step = .ok v) :
    |v| ≤ longest := by
  unfold clampStep at h
  split at h
  · rename_i hle
    cases h
    rw [abs_le]
    split_ifs with hlow hhigh
    · exact ⟨le_rfl, hle⟩
    · exact ⟨hle, le_rfl⟩
    · exact ⟨not_lt.1 hlow, not_lt.1 hhigh⟩
  · cases h

theorem abs_clampSteps_le {steps dx : List α} (h : clampSteps s system steps = .ok dx) {i : Nat}
    {d : α} (hd : dx[i]? = some d) : |d| ≤ longestStep s (system.kind i) := by
  obtain ⟨hlength, hall⟩ := List.forall₂_iff_get.1 (Outcome.mapM_eq_ok.1 h)
  obtain ⟨hi, rfl⟩ := List.getElem?_eq_some_iff.1 hd
  have hclamp := hall i (hlength ▸ hi) hi
  simp only [List.get_eq_getElem, List.getElem_zipIdx, Nat.zero_add] at hclamp
  exact abs_clampStep_le hclamp

namespace Accepts
variable {it : Iterate α} {trial : Trial α}

/-- An accepted trial is a step from its iterate, with the scale of the round shrunk so many
times. -/
theorem shrunk (h : Accepts s system budget it trial) :
    ∃ j, trial.alpha = it.alpha * s.alphaShrink ^ j := by
  obtain ⟨f, dx, first, -, -, -, -, hfirst, hsearch, -⟩ := h
  obtain ⟨halpha, -, -⟩ := trialAt_inv hfirst
  obtain ⟨j, hj, -⟩ := lineSearch_inv (by rw [halpha]; exact hfirst) hsearch
  exact ⟨j, by rw [hj, halpha]⟩

/-- No unknown moves by more than its longest step, times the scale. -/
theorem abs_sub_le (h : Accepts s system budget it trial) {i : Nat} {v w : α}
    (hv : it.x[i]? = some v) (hw : trial.x[i]? = some w) :
    |w - v| ≤ |trial.alpha| * longestStep s (system.kind i) := by
  obtain ⟨f, dx, first, -, -, -, hstep, hfirst, hsearch, -⟩ := h
  obtain ⟨halpha, -, -⟩ := trialAt_inv hfirst
  obtain ⟨-, -, htrial⟩ := lineSearch_inv (by rw [halpha]; exact hfirst) hsearch
  obtain ⟨-, hx, -⟩ := trialAt_inv htrial
  rw [hx, scaledStep, List.getElem?_zipWith_eq_some] at hw
  obtain ⟨v', d, hv', hd, rfl⟩ := hw
  cases hv.symm.trans hv'
  obtain ⟨-, steps, -, -, hcut⟩ := newtonStep?_inv hstep
  rw [add_sub_cancel_left, abs_mul]
  exact mul_le_mul_of_nonneg_left (abs_clampSteps_le hcut hd) (abs_nonneg _)

theorem alpha_pos (hs : s.Sound) (h : Accepts s system budget it trial) (halpha : 0 < it.alpha) :
    0 < trial.alpha := by
  obtain ⟨j, hj⟩ := h.shrunk
  rw [hj]
  exact mul_pos halpha (pow_pos hs.shrink_pos j)

theorem alpha_le (hs : s.Sound) (h : Accepts s system budget it trial) (halpha : 0 < it.alpha) :
    trial.alpha ≤ it.alpha := by
  obtain ⟨j, hj⟩ := h.shrunk
  rw [hj]
  exact mul_le_of_le_one_right halpha.le (pow_le_one₀ hs.shrink_pos.le hs.shrink_lt.le)

/-- After a trial at a scale above zero, the growth factor alone decides the sign of the next
scale. -/
theorem nextAlpha_pos_iff (hs : s.Sound) (h : Accepts s system budget it trial)
    (halpha : 0 < it.alpha) : 0 < nextAlpha s trial ↔ 0 < s.alphaGrowth := by
  rw [nextAlpha, Scalar.min_exact, lt_min_iff,
    and_iff_right hs.initialAlpha, mul_pos_iff_of_pos_left (h.alpha_pos hs halpha)]

end Accepts

end Trials

/-! ## The scale along an attempt -/

section Scale
variable {α ρ : Type} [ExactScalar α] [RandomSource ρ α] {s : NewtonSettings α}
  {system : NonlinearSystem α} {budget rounds left : Nat} {it it' : Iterate α} {d : Draws ρ}

/-- The scale never exceeds the first one. -/
theorem Begins.alpha_le (halpha : it.alpha ≤ s.initialAlpha)
    (h : Begins s system budget rounds it d left it') : it'.alpha ≤ s.initialAlpha := by
  refine h.induction (P := fun it => it.alpha ≤ s.initialAlpha) ?_ halpha
  intro it next d d' _ hround
  cases round_ends hround with
  | accepted =>
    show Scalar.min _ _ ≤ s.initialAlpha
    rw [Scalar.min_exact]
    exact min_le_left _ _
  | perturbed => exact le_rfl

/-- It stays above zero while it is multiplied by factors above zero. -/
theorem Begins.alpha_pos (hs : s.Sound) (hgrowth : 0 < s.alphaGrowth) (halpha : 0 < it.alpha)
    (h : Begins s system budget rounds it d left it') : 0 < it'.alpha := by
  refine h.induction (P := fun it => 0 < it.alpha) ?_ halpha
  intro it next d d' hit hround
  cases round_ends hround with
  | accepted _ _ haccepts => exact (haccepts.nextAlpha_pos_iff hs hit).2 hgrowth
  | perturbed => exact hs.initialAlpha

/-- With settings that have been checked, cutting a step to the longest steps never fails, and the
scale of a round is at most the first one. When the growth factor is above zero, the scale is above
zero too, and accepted trials are within the longest steps times the first scale. When it is not,
the scale leaves its range with the first trial that is accepted. -/
theorem scale_in_range (hs : s.validate = .ok ()) (x : List α)
    (hbegins : Begins s system budget s.maxIterations ⟨x, s.initialAlpha, none⟩ d left it) :
    (∀ steps, ∃ cut, clampSteps s system steps = .ok cut) ∧
    it.alpha ≤ s.initialAlpha ∧
    (0 < s.alphaGrowth → 0 < it.alpha ∧
      ∀ trial, Accepts s system budget it trial → ∀ (i : Nat) (v w : α),
        it.x[i]? = some v → trial.x[i]? = some w →
        |w - v| ≤ s.initialAlpha * longestStep s (system.kind i)) ∧
    (0 < it.alpha → ∀ trial fewer, Accepts s system budget it trial → left = fewer + 1 →
      ∃ next, Begins s system budget s.maxIterations ⟨x, s.initialAlpha, none⟩ d fewer next ∧
        next.x = trial.x ∧ (0 < next.alpha ↔ 0 < s.alphaGrowth)) := by
  have hsound := NewtonSettings.sound_of_validate hs
  have hle : it.alpha ≤ s.initialAlpha := hbegins.alpha_le le_rfl
  refine ⟨fun steps => ?_, hle, fun hgrowth => ?_, fun hpos trial fewer htrial hleft => ?_⟩
  · obtain ⟨cut, hcut, -⟩ := clampSteps_ok hsound system (rfl : steps.length = steps.length)
    exact ⟨cut, hcut⟩
  · have hpos := hbegins.alpha_pos hsound hgrowth hsound.initialAlpha
    refine ⟨hpos, fun trial htrial i v w hv hw => (htrial.abs_sub_le hv hw).trans ?_⟩
    rw [abs_of_pos (htrial.alpha_pos hsound hpos)]
    exact mul_le_mul_of_nonneg_right ((htrial.alpha_le hsound hpos).trans hle)
      (longestStep_pos hsound _).le
  · subst hleft
    obtain ⟨best, hnext⟩ := hbegins.accepted htrial
    exact ⟨_, hnext, rfl, htrial.nextAlpha_pos_iff hsound hpos⟩

end Scale

/-! ## A growth factor below zero -/

/-- A cubic with its root far to the left. At one half it is flat, and it falls from there to the
right. -/
def flatCubic : NonlinearSystem ℚ :=
  PolynomialSystem.toSystem [[⟨-2, [3]⟩, ⟨1, [2]⟩, ⟨1 / 2, [1]⟩, ⟨-980001 / 4, [0]⟩]]
    (fun _ => .voltage) [0]

/-- Three rounds with this growth factor. -/
def growing (factor : ℚ) : NewtonSettings ℚ :=
  { NewtonSettings.standard with
    maxIterations := 3, maxRestarts := 1, randomScale := 0, alphaGrowth := factor }

theorem validate_growing (factor : ℚ) : (growing factor).validate = .ok () := by
  show (growing 0).validate = .ok ()
  exact eq_ok_of_isOk (by decide +kernel)

/-- From zero the cubic accepts half a volt to the right. -/
theorem accepts_flatCubic (factor : ℚ) :
    Accepts (growing factor) flatCubic 0 ⟨[0], 1, none⟩ ⟨1, [1 / 2], 60025000000⟩ := by
  have hmoved : scaledStep [(0 : ℚ)] [1 / 2] 1 = [1 / 2] := by decide +kernel
  have hres : flatCubic.residual [0] = .ok [-980001 / 4] := eq_ok_of_toOption (by decide +kernel)
  have hmiss : ¬ Scalar.norm [(-980001 / 4 : ℚ)] < (growing 0).tolerance := by decide +kernel
  have hstep : newtonStep? (growing 0) flatCubic [0] [-980001 / 4] = .ok (some [1 / 2]) :=
    eq_ok_of_toOption (by decide +kernel)
  have htrial : residualNorm flatCubic [1 / 2] = .ok 60025000000 :=
    eq_ok_of_toOption (by decide +kernel)
  rw [← hmoved] at htrial ⊢
  exact accepts_first hres hmiss rfl hstep htrial (by decide +kernel)

/-- Numbers given in advance, none of which is drawn. -/
def undrawn : Draws (Script ℚ) := ⟨⟨[]⟩, 0⟩

theorem scale_in_range_flatCubic :
    (growing (11 / 10)).validate = .ok () ∧
    Begins (growing (11 / 10)) flatCubic 0 3 ⟨[0], 1, none⟩ undrawn 2 ⟨[0], 1, none⟩ ∧
    |(1 / 2 : ℚ) - 0| ≤ (growing (11 / 10)).initialAlpha *
      longestStep (growing (11 / 10)) (flatCubic.kind 0) ∧
    ∃ next, Begins (growing (11 / 10)) flatCubic 0 3 ⟨[0], 1, none⟩ undrawn 1 next ∧
      next.x = [1 / 2] ∧ 0 < next.alpha := by
  have hvalid := validate_growing (11 / 10)
  have hbegins : Begins (growing (11 / 10)) flatCubic 0 3 ⟨[0], 1, none⟩ undrawn 2
      ⟨[0], 1, none⟩ := .here
  have haccepts := accepts_flatCubic (11 / 10)
  have hgrowth : (0 : ℚ) < (growing (11 / 10)).alphaGrowth := by decide +kernel
  obtain ⟨-, -, hrange, hafter⟩ := scale_in_range hvalid [0] hbegins
  obtain ⟨next, hnext, hx, hpos⟩ := hafter rfl _ 1 haccepts rfl
  exact ⟨hvalid, hbegins, (hrange hgrowth).2 _ haccepts 0 0 (1 / 2) rfl rfl, next, hnext, hx,
    hpos.2 hgrowth⟩

/-- The settings are accepted, but the second round begins with a scale below zero and moves its
unknown by fifty volts, where half a volt is the longest step. -/
theorem scale_below_zero :
    (growing (-100)).validate = .ok () ∧ ∃ it trial,
      Begins (growing (-100)) flatCubic 0 3 ⟨[0], 1, none⟩ undrawn 1 it ∧ it.alpha = -100 ∧
      ¬ 0 < it.alpha ∧ Accepts (growing (-100)) flatCubic 0 it trial ∧
      it.x = [1 / 2] ∧ trial.x = [-99 / 2] ∧
      ¬ |(-99 / 2 : ℚ) - 1 / 2| ≤ (growing (-100)).initialAlpha *
        longestStep (growing (-100)) (flatCubic.kind 0) := by
  have hfirst : Begins (growing (-100)) flatCubic 0 3 ⟨[0], 1, none⟩ undrawn 2 ⟨[0], 1, none⟩ :=
    .here
  obtain ⟨best, hsecond⟩ := hfirst.accepted (accepts_flatCubic (-100))
  have halpha : nextAlpha (growing (-100)) ⟨1, [1 / 2], 60025000000⟩ = -100 := by decide +kernel
  rw [halpha] at hsecond
  have hmoved : scaledStep [(1 / 2 : ℚ)] [1 / 2] (-100) = [-99 / 2] := by decide +kernel
  have hres : flatCubic.residual [1 / 2] = .ok [-245000] := eq_ok_of_toOption (by decide +kernel)
  have hmiss : ¬ Scalar.norm [(-245000 : ℚ)] < (growing (-100)).tolerance := by decide +kernel
  have hstep : newtonStep? (growing (-100)) flatCubic [1 / 2] [-245000] = .ok (some [1 / 2]) :=
    eq_ok_of_toOption (by decide +kernel)
  have htrial : residualNorm flatCubic [-99 / 2] = .ok 0 := eq_ok_of_toOption (by decide +kernel)
  have hbelow : ¬ (0 : ℚ) < -100 := by decide +kernel
  rw [← hmoved] at htrial
  have haccepts : Accepts (growing (-100)) flatCubic 0 ⟨[1 / 2], -100, best⟩
      ⟨-100, scaledStep [1 / 2] [1 / 2] (-100), 0⟩ :=
    accepts_first hres hmiss rfl hstep htrial (by decide +kernel)
  rw [hmoved] at haccepts
  exact ⟨validate_growing (-100), _, _, hsecond, rfl, hbelow, haccepts, rfl, rfl,
    by decide +kernel⟩

end Nodal.Newton
