import Mathlib.Algebra.Order.Archimedean.Basic
import Nodal.Proofs.Elimination
import Nodal.Proofs.NewtonRuns
import Nodal.Proofs.Ranges
import Nodal.Proofs.Slopes

/-! # The solver comes to an end

Elimination of a complete system finds a solution or no pivot. A line search shrinks its step by a
factor below one, so it falls below the smallest step after a number of rounds that depends on the
settings alone. With this budget, and with any larger one, the Newton solver comes back in the same
way (`Settles`). -/

namespace Nodal

/-- With any budget from `enough` on the computation comes back in the same way, with a result of
which `P` holds or with an error that a caller handles. -/
def Settles {α σ β : Type} (enough : Nat) (m : Nat → EStateM (Halt α) σ β) (s : σ) (P : β → Prop) :
    Prop :=
  (∃ b s', P b ∧ ∀ budget, enough ≤ budget → m budget s = .ok b s') ∨
    ∃ f s', ∀ budget, enough ≤ budget → m budget s = .error (.failed f) s'

namespace Settles
variable {α σ β γ : Type} {enough : Nat} {m : Nat → EStateM (Halt α) σ β} {s : σ} {P : β → Prop}
  {Q : γ → Prop}

theorem pure {b : β} (hb : P b) : Settles enough (fun _ => (pure b : EStateM (Halt α) σ β)) s P :=
  .inl ⟨b, s, hb, fun _ _ => rfl⟩

theorem bind {f : Nat → β → EStateM (Halt α) σ γ} (hm : Settles enough m s P)
    (hf : ∀ b s', P b → Settles enough (fun budget => f budget b) s' Q) :
    Settles enough (fun budget => m budget >>= f budget) s Q := by
  obtain ⟨b, s₁, hb, hm⟩ | ⟨f, s₁, hm⟩ := hm
  · obtain ⟨c, s', hc, hf⟩ | ⟨f, s', hf⟩ := hf b s₁ hb
    · refine .inl ⟨c, s', hc, fun budget hle => ?_⟩
      exact run_bind_eq_ok.2 ⟨b, s₁, hm budget hle, hf budget hle⟩
    · refine .inr ⟨f, s', fun budget hle => ?_⟩
      exact run_bind_eq_error.2 (.inr ⟨b, s₁, hm budget hle, hf budget hle⟩)
  · refine .inr ⟨f, s₁, fun budget hle => ?_⟩
    exact run_bind_eq_error.2 (.inl (hm budget hle))

theorem ofOutcome {ρ : Type} {d : Draws ρ} {o : Nat → Outcome α β} {b : β} (hb : P b)
    (h : ∀ budget, enough ≤ budget → o budget = .ok b) :
    Settles enough (fun budget => (Drawing.ofOutcome (o budget) : Drawing α ρ β)) d P :=
  .inl ⟨b, d, hb, fun budget hle => by simp only [h budget hle]; rfl⟩

end Settles

/-! ## Elimination -/

namespace Row
variable {α : Type} [Scalar α]

omit [Scalar α] in
theorem exchange_ok {first r : Row α} {rest : List (Row α)} {j : Nat}
    (hj : (first :: rest)[j]? = some r) (hrhs : ∀ r ∈ first :: rest, r.rhs.isSome) :
    ∃ p others, exchange first rest j = .ok (p, others) := by
  cases j with
  | zero => exact ⟨first, rest, rfl⟩
  | succ j =>
    rw [List.getElem?_cons_succ] at hj
    have hboth : (first.rhs.isSome && r.rhs.isSome) = true := by
      rw [hrhs first List.mem_cons_self, hrhs r (List.mem_cons_of_mem _ (List.mem_of_getElem? hj))]
      rfl
    exact ⟨r, rest.set j first, by simp only [exchange, hj, hboth, if_true]; rfl⟩

theorem reduce_ok {p r : Row α} (hp : p.rhs.isSome) (hr : r.rhs.isSome) :
    ∃ r', reduce p r = .ok r' ∧ r'.rhs.isSome := by
  obtain ⟨s, hs⟩ := Option.isSome_iff_exists.1 hr
  obtain ⟨t, ht⟩ := Option.isSome_iff_exists.1 hp
  rw [reduce]
  simp only [hs, ht]
  split
  · exact ⟨_, rfl, rfl⟩
  · exact ⟨_, rfl, rfl⟩

/-- A complete system has a solution, or elimination finds no pivot. -/
theorem solve_settles {n : Nat} {rows : List (Row α)} (hn : rows.length = n)
    (hrhs : ∀ r ∈ rows, r.rhs.isSome) :
    (∃ xs, solve n rows = .ok xs) ∨ solve n rows = .error (.failed .singularMatrix) := by
  induction n generalizing rows with
  | zero => exact .inl ⟨[], rfl⟩
  | succ n ih =>
    obtain ⟨first, rest, rfl⟩ := List.exists_cons_of_length_eq_add_one hn
    obtain ⟨pivot, hpivot, -⟩ := largestLead_spec first rest
    rw [solve]
    simp only
    split
    · obtain ⟨p, others, hex⟩ := exchange_ok hpivot hrhs
      obtain ⟨-, hperm⟩ := exchange_perm hex
      have hall : ∀ r ∈ p :: others, r.rhs.isSome := fun r hr => hrhs r (hperm.mem_iff.1 hr)
      obtain ⟨hp, hothers⟩ := List.forall_mem_cons.1 hall
      obtain ⟨reduced, hred⟩ := Outcome.exists_mapM fun r hr => by
        obtain ⟨r', hr', -⟩ := reduce_ok hp (hothers r hr)
        exact ⟨r', hr'⟩
      have hlen : reduced.length = n := by
        rw [Outcome.length_of_mapM hred]
        have := hperm.length_eq
        simp only [List.length_cons] at this hn
        exact Nat.succ_inj.1 (this.trans hn)
      have hreduced : ∀ r' ∈ reduced, r'.rhs.isSome := by
        intro r' hr'
        obtain ⟨r, hr, hrr'⟩ := Outcome.exists_entry hred r' hr'
        obtain ⟨r'', hr'', hsome⟩ := reduce_ok hp (hothers r hr)
        cases hrr'.symm.trans hr''
        exact hsome
      obtain ⟨t, ht⟩ := Option.isSome_iff_exists.1 hp
      simp only [hex, Outcome.ok_bind, hred, ht]
      obtain ⟨xs, hxs⟩ | hxs := ih hlen hreduced
      · exact .inl ⟨_, by rw [hxs]; rfl⟩
      · exact .inr (by rw [hxs]; rfl)
    · exact .inr rfl

end Row

theorem Matrix.solve_settles {α : Type} [Scalar α] {a : Matrix α} {b : List α}
    (hb : b.length = a.size) :
    (∃ xs, a.solve b = .ok xs) ∨ a.solve b = .error (.failed .singularMatrix) := by
  have hrows : a.rows.length = a.size := by simp [Matrix.rows]
  refine Row.solve_settles (by rw [Row.length_zip, hrows]) fun r hr => ?_
  obtain ⟨i, hi, rfl⟩ := List.getElem_of_mem hr
  have hget := List.getElem?_eq_getElem hi
  rw [Row.getElem?_zip] at hget
  rw [Row.length_zip, hrows] at hi
  obtain ⟨row, -, heq⟩ := Option.map_eq_some_iff.1 hget
  rw [← heq, List.getElem?_eq_getElem (hb ▸ hi)]
  rfl

/-! ## Newton iteration -/

/-- What checked settings say about steps. -/
structure NewtonSettings.Sound {α : Type} [ExactScalar α] (s : NewtonSettings α) : Prop where
  initialAlpha : 0 < s.initialAlpha
  minAlpha : 0 < s.minAlpha
  maxVoltageStep : 0 < s.maxVoltageStep
  maxCurrentStep : 0 < s.maxCurrentStep
  shrink_pos : 0 < s.alphaShrink
  shrink_lt : s.alphaShrink < 1

theorem NewtonSettings.sound_of_validate {α : Type} [ExactScalar α] {s : NewtonSettings α}
    (h : s.validate = .ok ()) : s.Sound := by
  unfold validate at h
  split at h
  · cases h
  rename_i hnone
  split at h
  · cases h
  rename_i hshrink
  simp only [List.find?_eq_none, positives, List.mem_cons, List.not_mem_nil, or_false,
    forall_eq_or_imp, forall_eq, Bool.not_eq_true', Bool.not_eq_false,
    Scalar.isPositive_iff] at hnone
  obtain ⟨-, hinitial, hmin, -, hvoltage, hcurrent⟩ := hnone
  obtain ⟨hpos, hlt⟩ := not_not.1 hshrink
  exact ⟨hinitial, hmin, hvoltage, hcurrent, hpos, hlt⟩

namespace Newton

section Lengths
variable {α ρ : Type} [Scalar α] {s : NewtonSettings α} {n : Nat}

theorem length_scaledStep {x dx : List α} (hx : x.length = n) (hdx : dx.length = n) (alpha : α) :
    (scaledStep x dx alpha).length = n := by
  simp [scaledStep, hx, hdx]

theorem length_perturb [RandomSource ρ α] (x : List α) (d : Draws ρ) :
    (perturb s x d).1.length = x.length := by
  induction x generalizing d with
  | nil => rfl
  | cons v x ih => simp only [perturb, List.length_cons, ih]

end Lengths

variable {α ρ : Type} [ExactScalar α] [RandomSource ρ α] {s : NewtonSettings α}
  {system : NonlinearSystem α} {n enough : Nat}

/-- So many times can the first step be shrunk that it is small enough. -/
def Shrinks (s : NewtonSettings α) (enough : Nat) : Prop :=
  s.initialAlpha * s.alphaShrink ^ enough ≤ s.minAlpha

omit [RandomSource ρ α] in
/-- Any scale falls below the smallest one when it is shrunk often enough. -/
theorem exists_shrunk [Archimedean α] (hs : s.Sound) (alpha : α) :
    ∃ k, alpha * s.alphaShrink ^ k ≤ s.minAlpha := by
  obtain hpos | hle := lt_or_ge 0 alpha
  · obtain ⟨k, hk⟩ := exists_pow_lt_of_lt_one (div_pos hs.minAlpha hpos) hs.shrink_lt
    refine ⟨k, ?_⟩
    rw [mul_comm]
    exact ((lt_div_iff₀ hpos).1 hk).le
  · refine ⟨0, ?_⟩
    rw [pow_zero, mul_one]
    exact hle.trans hs.minAlpha.le

omit [RandomSource ρ α] in
theorem exists_shrinks [Archimedean α] (hs : s.Sound) : ∃ enough, Shrinks s enough :=
  exists_shrunk hs s.initialAlpha

theorem trialAt_ok (hsys : system.Total n) {x dx : List α} (hx : x.length = n)
    (hdx : dx.length = n) (alpha : α) :
    ∃ t, trialAt system x dx alpha = .ok t ∧ t.x.length = n ∧ t.alpha = alpha := by
  have hlen := length_scaledStep hx hdx alpha
  obtain ⟨f, hf, -⟩ := hsys.residual _ hlen
  refine ⟨⟨alpha, scaledStep x dx alpha, Scalar.norm f⟩, ?_, hlen, rfl⟩
  simp only [trialAt, trialAtM, hf, Outcome.ok_bind]
  rfl

/-- A line search ends before its step is smaller than the smallest one allows. -/
theorem lineSearch_ok (hs : s.Sound) (hsys : system.Total n) {x dx : List α} (hx : x.length = n)
    (hdx : dx.length = n) (error : α) {t : Trial α} (ht : t.x.length = n)
    (halpha : t.alpha ≤ s.initialAlpha) (hsmall : t.alpha * s.alphaShrink ^ enough ≤ s.minAlpha) :
    ∃ t' : Trial α, t'.x.length = n ∧ t'.alpha ≤ s.initialAlpha ∧ ∀ budget, enough ≤ budget →
      lineSearch s system x dx error budget t = .ok t' := by
  have hstay : ∀ t : Trial α, ¬ (¬ t.residual < error ∧ s.minAlpha < t.alpha) → ∀ budget,
      lineSearch s system x dx error budget t = .ok t := by
    intro t hstop budget
    exact lineSearchM_stay hstop budget
  induction enough generalizing t with
  | zero =>
    rw [pow_zero, mul_one] at hsmall
    exact ⟨t, ht, halpha, fun budget _ => hstay t (fun h => not_lt.2 hsmall h.2) budget⟩
  | succ enough ih =>
    by_cases hgo : ¬ t.residual < error ∧ s.minAlpha < t.alpha
    · obtain ⟨t₁, ht₁, hlen, hshrunk⟩ := trialAt_ok hsys hx hdx (t.alpha * s.alphaShrink)
      have hpos : 0 < t.alpha := hs.minAlpha.trans hgo.2
      obtain ⟨t', hlen', halpha', h⟩ := ih hlen
        (by rw [hshrunk]; exact (mul_le_of_le_one_right hpos.le hs.shrink_lt.le).trans halpha)
        (by rw [hshrunk, mul_assoc, ← pow_succ']; exact hsmall)
      refine ⟨t', hlen', halpha', fun budget hle => ?_⟩
      obtain ⟨budget, rfl⟩ := Nat.exists_eq_add_of_le' (Nat.one_le_of_lt hle)
      rw [lineSearch, lineSearchM_succ hgo]
      exact Outcome.bind_eq_ok.2 ⟨t₁, ht₁, h budget (Nat.le_of_succ_le_succ hle)⟩
    · exact ⟨t, ht, halpha, fun budget _ => hstay t hgo budget⟩

omit [RandomSource ρ α] in
theorem longestStep_pos (hs : s.Sound) (kind : UnknownKind) : 0 < longestStep s kind := by
  unfold longestStep
  split
  · exact hs.maxVoltageStep
  · exact hs.maxCurrentStep

omit [RandomSource ρ α] in
theorem clampSteps_ok (hs : s.Sound) (system : NonlinearSystem α) {dx : List α}
    (hdx : dx.length = n) : ∃ dx', clampSteps s system dx = .ok dx' ∧ dx'.length = n := by
  have hclamp : ∀ p ∈ dx.zipIdx, ∃ y,
      clampStep (longestStep s (system.kind p.2)) p.1 = .ok y := by
    intro p _
    have hpos := longestStep_pos hs (system.kind p.2)
    have hle : -longestStep s (system.kind p.2) ≤ longestStep s (system.kind p.2) := by linarith
    exact ⟨_, if_pos hle⟩
  obtain ⟨dx', h⟩ := Outcome.exists_mapM hclamp
  exact ⟨dx', h, by rw [Outcome.length_of_mapM h, List.length_zipIdx, hdx]⟩

omit [RandomSource ρ α] in
theorem newtonStep?_ok (hs : s.Sound) (hsys : system.Total n) {x f : List α} (hx : x.length = n)
    (hf : f.length = n) : ∃ step, newtonStep? s system x f = .ok step ∧
      ∀ dx, step = some dx → dx.length = n := by
  obtain ⟨m, hm, hsize⟩ := hsys.jacobian x hx
  have hlen : (f.map (- ·)).length = (m.mapDiagonal (stabilize s.stabilityEps)).size := by
    rw [List.length_map, hf]
    exact hsize.symm
  simp only [newtonStep?, hm, Outcome.ok_bind]
  obtain ⟨dx, hdx⟩ | hnone := Matrix.solve_settles hlen
  · obtain ⟨hdxlen, -⟩ := Matrix.solve_sound hdx
    obtain ⟨dx', hclamp, hdx'⟩ := clampSteps_ok hs system (hdxlen.trans hsize)
    refine ⟨some dx', ?_, fun _ h => Option.some.inj h ▸ hdx'⟩
    simp only [hdx, hclamp, Outcome.ok_bind]
    rfl
  · exact ⟨none, by simp only [hnone]; rfl, nofun⟩

theorem perturbed_settles {x : List α} (hx : x.length = n) (d : Draws ρ) :
    Settles enough (fun _ => perturbed s x) d fun x => x.length = n :=
  .inl ⟨_, _, (length_perturb x d).trans hx, fun _ _ => rfl⟩

/-- An iterate of the system, with a step that line searches can work with. -/
structure Fitting (s : NewtonSettings α) (n : Nat) (it : Iterate α) : Prop where
  length : it.x.length = n
  alpha : it.alpha ≤ s.initialAlpha

theorem round_settles (hs : s.Sound) (hshrinks : Shrinks s enough) (hsys : system.Total n)
    {it : Iterate α} (hit : Fitting s n it) (d : Draws ρ) :
    Settles enough (fun budget => round s system budget it) d
      fun p => ∀ next, p = .moved next → Fitting s n next := by
  obtain ⟨f, hf, hflen⟩ := hsys.residual it.x hit.length
  unfold round roundM
  refine (Settles.ofOutcome (P := fun f' => f' = f) rfl fun _ _ => hf).bind ?_
  rintro f' d₁ rfl
  simp only
  split
  · exact .pure nofun
  split
  · exact .pure nofun
  obtain ⟨step, hstep, hsteplen⟩ := newtonStep?_ok hs hsys hit.length hflen
  refine (Settles.ofOutcome (P := fun step' => step' = step) rfl fun _ _ => hstep).bind ?_
  rintro step' d₂ rfl
  cases step' with
  | none => exact .pure nofun
  | some dx =>
    have hdx := hsteplen dx rfl
    obtain ⟨first, hfirst, hfirstlen, halpha⟩ := trialAt_ok hsys hit.length hdx it.alpha
    refine (Settles.ofOutcome (P := fun first' => first' = first) rfl fun _ _ => hfirst).bind ?_
    rintro first' d₃ rfl
    have hfirstle : first'.alpha ≤ s.initialAlpha := halpha ▸ hit.alpha
    have hsmall : first'.alpha * s.alphaShrink ^ enough ≤ s.minAlpha :=
      (mul_le_mul_of_nonneg_right hfirstle (pow_nonneg hs.shrink_pos.le _)).trans hshrinks
    obtain ⟨trial, htriallen, -, htrial⟩ := lineSearch_ok hs hsys hit.length hdx (Scalar.norm f')
      hfirstlen hfirstle hsmall
    refine (Settles.ofOutcome (P := fun trial' => trial' = trial) rfl htrial).bind ?_
    rintro trial' d₄ rfl
    split
    · refine .pure ?_
      rintro next ⟨⟩
      exact ⟨htriallen, by rw [Scalar.min_exact]; exact min_le_left _ _⟩
    · refine (perturbed_settles hit.length d₄).bind fun x d₅ hx => .pure ?_
      rintro next ⟨⟩
      exact ⟨hx, le_rfl⟩

theorem attempt_settles (hs : s.Sound) (hshrinks : Shrinks s enough) (hsys : system.Total n)
    {it : Iterate α} (hit : Fitting s n it) (rounds : Nat) (d : Draws ρ) :
    Settles enough (fun budget => attempt s system budget rounds it) d fun _ => True := by
  induction rounds generalizing it d with
  | zero => exact .pure trivial
  | succ rounds ih =>
    simp only [attempt_succ]
    refine (round_settles hs hshrinks hsys hit d).bind fun p d₁ hp => ?_
    cases p with
    | converged x residual => exact .pure trivial
    | stuck best => exact .pure trivial
    | moved next => exact ih (hp next rfl) d₁

theorem attempts_settles (hs : s.Sound) (hshrinks : Shrinks s enough) (hsys : system.Total n)
    (left restarts : Nat) (best : Option α) (d : Draws ρ) :
    Settles enough (fun budget => attempts s system budget left restarts best) d
      fun _ => True := by
  induction left generalizing restarts best d with
  | zero => exact .inr ⟨_, d, fun _ _ => rfl⟩
  | succ left ih =>
    simp only [attempts_succ]
    have hstart : Settles enough (fun _ => startOf s system restarts) d fun x => x.length = n := by
      unfold startOf startM
      split
      · exact .pure hsys.guess
      · exact perturbed_settles hsys.guess d
    refine hstart.bind fun x d₁ hx => ?_
    refine (attempt_settles hs hshrinks hsys ⟨hx, le_rfl⟩ s.maxIterations d₁).bind fun a d₂ _ => ?_
    cases a with
    | converged x residual iterations => exact .pure trivial
    | failed residual => exact ih ..

theorem solve_settles (hs : s.Sound) (hshrinks : Shrinks s enough) (hsys : system.Total n)
    (d : Draws ρ) : Settles enough (fun budget => solve s system budget) d fun _ => True :=
  attempts_settles hs hshrinks hsys s.maxRestarts 0 none d

end Newton

/-! ## The equation of a tick -/

namespace Equation
variable {α ρ : Type} [ExactScalar α] [RandomSource ρ α] {l : Layout} {e : Equation α}
  {elements : List (Component α)}

/-- An equation with a layout is solved, or the solver says why not. -/
theorem solveWith_settles {newton : NewtonSolver α ρ} {enough : Nat} (hs : newton.settings.Sound)
    (hshrinks : Newton.Shrinks newton.settings enough) (he : e.Fits l)
    (hfits : ∀ d ∈ elements, d.Fits l ∧ d.device.isNonlinear) :
    Settles enough (fun budget => e.solveWith elements budget) newton fun _ => True := by
  unfold solveWith NewtonSolver.solve
  by_cases hnil : elements.isEmpty
  · obtain ⟨x, hx⟩ | hx := Matrix.solve_settles (a := e.admittances) (b := e.inputs)
      (he.length_eq.trans he.size_eq.symm)
    · refine .inl ⟨x, newton, trivial, fun budget _ => ?_⟩
      simp only [if_pos hnil, solve, hx]
    · refine .inr ⟨.singularMatrix, newton, fun budget _ => ?_⟩
      simp only [if_pos hnil, solve, hx]
  · have hsys := total_toSystem he (fun d hd => (hfits d hd).1) leakage
    obtain ⟨solution, draws, -, h⟩ | ⟨f, draws, h⟩ :=
      Newton.solve_settles hs hshrinks hsys newton.draws
    · refine .inl ⟨solution.x, { newton with draws }, trivial, fun budget hle => ?_⟩
      simp only [if_neg hnil, h budget hle]
    · refine .inr ⟨f, { newton with draws }, fun budget hle => ?_⟩
      simp only [if_neg hnil, h budget hle]

end Equation

end Nodal
