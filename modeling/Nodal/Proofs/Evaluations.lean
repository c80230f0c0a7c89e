import Nodal.Proofs.StepScale

/-! # How often the residual is evaluated

The iteration runs in another monad as well, in which every evaluation of the residual is counted
(`Newton.Counting`). A line search shrinks its scale no more often than it takes the scale to fall
to the smallest one. The scale of a round is at most the first one, so the number of evaluations of
a solve, and with it the budget that it needs, depends on the settings alone (`solve_bounded`). -/

namespace Nodal

/-! ## Computations that end -/

namespace Outcome
variable {α β γ : Type}

/-- The computation does not run out of its budget. -/
def Ends (x : Outcome α β) : Prop := x ≠ .error .exhausted

theorem ends_ok (b : β) : Ends (.ok b : Outcome α β) := nofun

theorem ends_misuse (m : Misuse) : Ends (misuse m : Outcome α β) := nofun

theorem ends_fail (f : Failure α) : Ends (fail f : Outcome α β) := nofun

theorem Ends.bind {x : Outcome α β} {f : β → Outcome α γ} (hx : Ends x) (hf : ∀ b, Ends (f b)) :
    Ends (x >>= f) := by
  cases x with
  | ok b => exact hf b
  | error h =>
    intro heq
    cases heq
    exact hx rfl

theorem ends_mapM {f : β → Outcome α γ} (hf : ∀ b, Ends (f b)) (xs : List β) :
    Ends (xs.mapM f) := by
  induction xs with
  | nil => exact ends_ok []
  | cons x xs ih =>
    rw [List.mapM_cons]
    exact (hf x).bind fun _ => ih.bind fun _ => ends_ok _

end Outcome

open Outcome

/-- A system whose evaluation comes to an end everywhere. -/
structure NonlinearSystem.Ends {α : Type} (system : NonlinearSystem α) : Prop where
  residual : ∀ x, Outcome.Ends (system.residual x)
  jacobian : ∀ x, Outcome.Ends (system.jacobian x)

namespace Row
variable {α : Type} [Scalar α]

theorem ends_reduce (p r : Row α) : Ends (reduce p r) := by
  unfold reduce
  simp only
  split
  · exact ends_ok _
  split
  · exact ends_ok _
  · exact ends_misuse _

omit [Scalar α] in
theorem ends_exchange (first : Row α) (rest : List (Row α)) (j : Nat) :
    Ends (exchange first rest j) := by
  cases j with
  | zero => exact ends_ok _
  | succ j =>
    rw [exchange]
    split
    · exact ends_misuse _
    split
    · exact ends_ok _
    · exact ends_misuse _

theorem ends_solve (n : Nat) (rows : List (Row α)) : Ends (solve n rows) := by
  induction n generalizing rows with
  | zero => exact ends_ok _
  | succ n ih =>
    cases rows with
    | nil => exact ends_ok _
    | cons first rest =>
      rw [solve]
      simp only
      split
      · refine (ends_exchange first rest _).bind fun exchanged => ?_
        refine (ends_mapM (ends_reduce exchanged.1) exchanged.2).bind fun reduced => ?_
        refine (ih reduced).bind fun xs => ?_
        split
        · exact ends_ok _
        · exact ends_misuse _
      · exact ends_fail _

end Row

namespace Newton

section Steps
variable {α : Type} [Scalar α] {s : NewtonSettings α} {system : NonlinearSystem α}

theorem ends_clampStep (longest step : α) : Ends (clampStep longest step) := by
  unfold clampStep
  split
  · exact ends_ok _
  · exact ends_misuse _

theorem ends_newtonStep? (hsys : system.Ends) (x f : List α) : Ends (newtonStep? s system x f) := by
  unfold newtonStep?
  refine (hsys.jacobian x).bind fun jacobian => ?_
  split
  · exact (ends_mapM (fun _ => ends_clampStep _ _) _).bind fun _ => ends_ok _
  · exact ends_ok _
  · rename_i h _ hsolve
    intro heq
    cases heq
    exact Row.ends_solve _ _ hsolve

end Steps

/-! ## The run that counts -/

/-- A run that counts the evaluations of the residual. -/
abbrev Counting (α ρ β : Type) := EStateM (Halt α) (Draws ρ × Nat) β

/-- The end of a run, with a count. -/
def withCount {α ρ β : Type} (n : Nat) :
    EStateM.Result (Halt α) (Draws ρ) β → EStateM.Result (Halt α) (Draws ρ × Nat) β
  | .ok b d => .ok b (d, n)
  | .error h d => .error h (d, n)

namespace Counting
variable {α ρ β : Type}

/-- A part of a run that does not evaluate the residual. -/
def free (m : Drawing α ρ β) : Counting α ρ β := fun (d, n) => withCount n (m d)

def evaluate (system : NonlinearSystem α) (x : List α) : Counting α ρ (List α) :=
  fun (d, n) => withCount (n + 1) (Drawing.ofOutcome (system.residual x) d)

/-- Residuals are counted where they are evaluated. -/
def runner (system : NonlinearSystem α) : Runner α ρ (EStateM (Halt α) (Draws ρ × Nat))
    (EStateM (Halt α) (Draws ρ × Nat)) where
  residual := evaluate system
  lift c := c
  draw := free

variable [Scalar α]

def lineSearch (s : NewtonSettings α) (system : NonlinearSystem α) (x dx : List α) (error : α) :
    Nat → Trial α → Counting α ρ (Trial α) :=
  lineSearchM (evaluate system) s x dx error

def solve [RandomSource ρ α] (s : NewtonSettings α) (system : NonlinearSystem α) (budget : Nat) :
    Counting α ρ (NewtonSolution α) :=
  solveM (runner system) s system budget

end Counting

/-! ## Bounds of a run -/

/-- With any budget, the counting run comes to the end of the run itself, after at most `most`
evaluations of the residual. A budget of `enough` is as good as any larger one, and the run does not
run out of it when evaluating the system comes to an end. `P` holds of the result. -/
structure Bounded {α ρ β : Type} (system : NonlinearSystem α) (enough most : Nat)
    (c : Nat → Counting α ρ β) (m : Nat → Drawing α ρ β) (P : β → Prop) : Prop where
  counts : ∀ budget d n, ∃ n', n' ≤ n + most ∧ c budget (d, n) = withCount n' (m budget d)
  steady : ∀ budget, enough ≤ budget → m budget = m enough
  ends : system.Ends → ∀ d d', m enough d ≠ .error .exhausted d'
  gives : ∀ budget d b d', m budget d = .ok b d' → P b

theorem ofOutcome_bind {α ρ β γ : Type} (x : Outcome α β) (f : β → Outcome α γ) :
    (Drawing.ofOutcome (x >>= f) : Drawing α ρ γ) =
      Drawing.ofOutcome x >>= fun b => Drawing.ofOutcome (f b) := by
  cases x <;> rfl

theorem ofOutcome_pure {α ρ β : Type} (b : β) :
    (Drawing.ofOutcome (pure b) : Drawing α ρ β) = pure b := rfl

theorem ends_ofOutcome {α ρ β : Type} {x : Outcome α β} (hx : Ends x) (d d' : Draws ρ) :
    (Drawing.ofOutcome x : Drawing α ρ β) d ≠ .error .exhausted d' := by
  intro heq
  cases x with
  | ok b => cases heq
  | error h =>
    cases heq
    exact hx rfl

namespace Bounded
variable {α ρ β γ : Type} {system : NonlinearSystem α} {enough most more : Nat}
  {c : Nat → Counting α ρ β} {m : Nat → Drawing α ρ β} {P R : β → Prop} {Q : γ → Prop}

theorem mono (h : Bounded system enough most c m P) (hle : most ≤ more) (hP : ∀ b, P b → R b) :
    Bounded system enough more c m R := by
  refine ⟨fun budget d n => ?_, h.steady, h.ends, fun budget d b d' hm =>
    hP b (h.gives budget d b d' hm)⟩
  obtain ⟨n', hn, hc⟩ := h.counts budget d n
  exact ⟨n', hn.trans (Nat.add_le_add_left hle n), hc⟩

theorem free {m : Drawing α ρ β} (hends : system.Ends → ∀ d d', m d ≠ .error .exhausted d')
    (hP : ∀ d b d', m d = .ok b d' → P b) :
    Bounded system enough 0 (fun _ => Counting.free m) (fun _ => m) P :=
  ⟨fun _ _ n => ⟨n, n.le_refl, rfl⟩, fun _ _ => rfl, hends, fun _ => hP⟩

theorem pure {b : β} (hb : P b) : Bounded system enough most (fun _ => (pure b : Counting α ρ β))
    (fun _ => (pure b : Drawing α ρ β)) P :=
  ⟨fun _ _ n => ⟨n, n.le_add_right most, rfl⟩, fun _ _ => rfl, nofun, fun _ _ _ _ heq => by
    cases heq
    exact hb⟩

theorem halt {h : Halt α} (hh : h ≠ .exhausted) :
    Bounded system enough most (fun _ => (throw h : Counting α ρ β))
      (fun _ => (throw h : Drawing α ρ β)) P :=
  ⟨fun _ _ n => ⟨n, n.le_add_right most, rfl⟩, fun _ _ => rfl,
    fun _ _ _ heq => hh (by cases heq; rfl), nofun⟩

theorem evaluate (x : List α) :
    Bounded system enough 1 (fun _ => (Counting.evaluate system x : Counting α ρ (List α)))
      (fun _ => Drawing.ofOutcome (system.residual x)) fun _ => True :=
  ⟨fun _ _ n => ⟨n + 1, le_rfl, rfl⟩, fun _ _ => rfl,
    fun hsys => ends_ofOutcome (hsys.residual x), fun _ _ _ _ _ => trivial⟩

theorem bind {cf : Nat → β → Counting α ρ γ} {f : Nat → β → Drawing α ρ γ}
    (h : Bounded system enough most c m P)
    (hf : ∀ b, P b → Bounded system enough more (fun budget => cf budget b)
      (fun budget => f budget b) Q) :
    Bounded system enough (most + more) (fun budget => c budget >>= cf budget)
      (fun budget => m budget >>= f budget) Q := by
  refine ⟨fun budget d n => ?_, fun budget hle => ?_, fun hsys d d' heq => ?_,
    fun budget d r d' heq => ?_⟩
  · obtain ⟨n₁, hn₁, hc⟩ := h.counts budget d n
    cases hm : m budget d with
    | ok b d₁ =>
      obtain ⟨n', hn', hcf⟩ := (hf b (h.gives budget d b d₁ hm)).counts budget d₁ n₁
      refine ⟨n', by omega, ?_⟩
      simp only [Bind.bind, EStateM.bind, hc, hm, withCount, hcf]
    | error e d₁ =>
      refine ⟨n₁, by omega, ?_⟩
      simp only [Bind.bind, EStateM.bind, hc, hm, withCount]
  · funext d
    simp only [Bind.bind, EStateM.bind, h.steady budget hle]
    cases hm : m enough d with
    | ok b d₁ =>
      have hsteady := (hf b (h.gives enough d b d₁ hm)).steady budget hle
      simp only [hsteady]
    | error e d₁ => rfl
  · obtain hm | ⟨b, d₁, hm, heq⟩ := run_bind_eq_error.1 heq
    · exact h.ends hsys d d' hm
    · exact (hf b (h.gives enough d b d₁ hm)).ends hsys d₁ d' heq
  · obtain ⟨b, d₁, hm, heq⟩ := run_bind_eq_ok.1 heq
    exact (hf b (h.gives budget d b d₁ hm)).gives budget d₁ r d' heq

/-- What comes after a part that does not evaluate the residual. -/
theorem free_bind {m : Drawing α ρ β} {cf : Nat → β → Counting α ρ γ} {f : Nat → β → Drawing α ρ γ}
    (hends : system.Ends → ∀ d d', m d ≠ .error .exhausted d')
    (hf : ∀ b, Bounded system enough most (fun budget => cf budget b)
      (fun budget => f budget b) Q) :
    Bounded system enough most (fun budget => Counting.free m >>= cf budget)
      (fun budget => m >>= f budget) Q :=
  ((free hends fun _ _ _ _ => trivial).bind fun b (_ : True) => hf b).mono (by omega) fun _ => id

/-- A run that takes one from its budget first. -/
theorem later {c' : Nat → Counting α ρ β} {m' : Nat → Drawing α ρ β}
    (h : Bounded system enough most c m P) (hc : ∀ budget, c' (budget + 1) = c budget)
    (hm : ∀ budget, m' (budget + 1) = m budget) (hc₀ : c' 0 = throw .exhausted)
    (hm₀ : m' 0 = throw .exhausted) : Bounded system (enough + 1) most c' m' P := by
  refine ⟨fun budget d n => ?_, fun budget hle => ?_, fun hsys => ?_, fun budget d b d' => ?_⟩
  · cases budget with
    | zero =>
      rw [hc₀, hm₀]
      exact ⟨n, n.le_add_right most, rfl⟩
    | succ budget =>
      rw [hc, hm]
      exact h.counts budget d n
  · obtain ⟨budget, rfl⟩ := Nat.exists_eq_add_of_le' (Nat.one_le_of_lt hle)
    rw [hm, hm]
    exact h.steady budget (Nat.le_of_succ_le_succ hle)
  · rw [hm]
    exact h.ends hsys
  · cases budget with
    | zero =>
      rw [hm₀]
      nofun
    | succ budget =>
      rw [hm]
      exact h.gives budget d b d'

end Bounded

/-! ## Bounds of the solver -/

section Solver
variable {α ρ : Type} [ExactScalar α] [RandomSource ρ α] {s : NewtonSettings α}
  {system : NonlinearSystem α} {enough : Nat}

omit [RandomSource ρ α] in
theorem trialAt_bounded (x dx : List α) (alpha : α) :
    Bounded system enough 1
      (fun _ => (trialAtM (Counting.evaluate system) x dx alpha : Counting α ρ _))
      (fun _ => Drawing.ofOutcome (trialAt system x dx alpha)) fun t => t.alpha = alpha := by
  simp only [trialAt, trialAtM, ofOutcome_bind, ofOutcome_pure]
  show Bounded system enough (1 + 0) _ _ _
  refine (Bounded.evaluate (scaledStep x dx alpha)).bind fun f _ => ?_
  exact .pure rfl

omit [RandomSource ρ α] in
/-- A line search shrinks its scale at most as often as it takes to make it small enough. -/
theorem lineSearch_bounded (x dx : List α) (error : α) {t : Trial α}
    (hsmall : t.alpha * s.alphaShrink ^ enough ≤ s.minAlpha) :
    Bounded system enough enough
      (fun budget => (Counting.lineSearch s system x dx error budget t : Counting α ρ _))
      (fun budget => Drawing.ofOutcome (lineSearch s system x dx error budget t))
      fun t' => ∃ j ≤ enough, t'.alpha = t.alpha * s.alphaShrink ^ j := by
  unfold Counting.lineSearch lineSearch
  induction enough generalizing t with
  | zero =>
    rw [pow_zero, mul_one] at hsmall
    simp only [lineSearchM_stay fun hgo => not_lt.2 hsmall hgo.2]
    exact .pure ⟨0, le_rfl, by rw [pow_zero, mul_one]⟩
  | succ enough ih =>
    by_cases hgo : ¬ t.residual < error ∧ s.minAlpha < t.alpha
    case neg =>
      simp only [lineSearchM_stay hgo]
      exact .pure ⟨0, Nat.zero_le _, by rw [pow_zero, mul_one]⟩
    have hsearch : Bounded system enough (1 + enough)
        (fun budget => (trialAtM (Counting.evaluate system) x dx (t.alpha * s.alphaShrink) >>=
          lineSearchM (Counting.evaluate system) s x dx error budget : Counting α ρ _))
        (fun budget => Drawing.ofOutcome (trialAt system x dx (t.alpha * s.alphaShrink)) >>=
          fun t => Drawing.ofOutcome (lineSearchM system.residual s x dx error budget t))
        fun t' => ∃ j ≤ enough + 1, t'.alpha = t.alpha * s.alphaShrink ^ j := by
      refine (trialAt_bounded x dx _).bind fun t₁ ht₁ => ?_
      have hshrunk (j : Nat) :
          t₁.alpha * s.alphaShrink ^ j = t.alpha * s.alphaShrink ^ (j + 1) := by
        rw [ht₁, pow_succ', mul_assoc]
      refine (ih (hshrunk enough ▸ hsmall)).mono le_rfl fun t' ⟨j, hj, ht'⟩ => ?_
      exact ⟨j + 1, Nat.succ_le_succ hj, ht'.trans (hshrunk j)⟩
    refine (hsearch.later (fun budget => ?_) (fun budget => ?_) ?_ ?_).mono
      (Nat.add_comm 1 enough).le fun _ => id
    · exact lineSearchM_succ hgo budget
    · rw [lineSearchM_succ hgo]
      exact ofOutcome_bind _ _
    · exact lineSearchM_zero hgo
    · rw [lineSearchM_zero hgo]
      rfl

omit [ExactScalar α] in
theorem perturbed_ne_exhausted [Scalar α] (x : List α) (d d' : Draws ρ) :
    perturbed s x d ≠ .error .exhausted d' := nofun

theorem round_bounded (hs : s.Sound) (hshrinks : Shrinks s enough) {it : Iterate α}
    (hit : it.alpha ≤ s.initialAlpha) :
    Bounded system enough (2 + enough)
      (fun budget => (roundM (Counting.runner system) s system budget it : Counting α ρ _))
      (fun budget => round s system budget it)
      fun p => ∀ next, p = .moved next → next.alpha ≤ s.initialAlpha := by
  have hsmall : it.alpha * s.alphaShrink ^ enough ≤ s.minAlpha :=
    (mul_le_mul_of_nonneg_right hit (pow_nonneg hs.shrink_pos.le _)).trans hshrinks
  unfold round roundM
  rw [show 2 + enough = 1 + (1 + (enough + 0)) by omega]
  refine (Bounded.evaluate it.x).bind fun f _ => ?_
  simp only
  split
  · exact .pure (by rintro next ⟨⟩)
  split
  · exact .pure (by rintro next ⟨⟩)
  refine .free_bind (fun hsys => ends_ofOutcome (ends_newtonStep? hsys it.x f)) fun step => ?_
  cases step with
  | none => exact .pure (by rintro next ⟨⟩)
  | some dx =>
    refine (trialAt_bounded it.x dx it.alpha).bind fun first hfirst => ?_
    refine (lineSearch_bounded it.x dx _ (hfirst ▸ hsmall)).bind fun trial _ => ?_
    split
    · refine .pure ?_
      rintro next ⟨⟩
      show Scalar.min _ _ ≤ s.initialAlpha
      rw [Scalar.min_exact]
      exact min_le_left _ _
    · refine .free_bind (fun _ => perturbed_ne_exhausted it.x) fun x => .pure ?_
      rintro next ⟨⟩
      exact le_rfl

theorem attempt_bounded (hs : s.Sound) (hshrinks : Shrinks s enough) (rounds : Nat)
    {it : Iterate α} (hit : it.alpha ≤ s.initialAlpha) :
    Bounded system enough (rounds * (2 + enough))
      (fun budget => (attemptM (Counting.runner system) s system budget rounds it :
        Counting α ρ _))
      (fun budget => attempt s system budget rounds it) fun _ => True := by
  induction rounds generalizing it with
  | zero => exact .pure trivial
  | succ rounds ih =>
    rw [Nat.succ_mul, Nat.add_comm]
    refine (round_bounded hs hshrinks hit).bind fun p hp => ?_
    cases p with
    | converged x residual => exact .pure trivial
    | stuck best => exact .pure trivial
    | moved next => exact ih (hp next rfl)

theorem startOf_bounded (restarts : Nat) :
    Bounded system enough 0
      (fun _ => (startM (Counting.runner system) s system restarts : Counting α ρ _))
      (fun _ => startOf s system restarts) fun _ => True := by
  unfold startOf startM
  split
  · exact .pure trivial
  · exact .free (fun _ => perturbed_ne_exhausted system.guess) fun _ _ _ _ => trivial

/-- Every attempt is another one at the same cost. -/
theorem attempts_bounded (hs : s.Sound) (hshrinks : Shrinks s enough) (left restarts : Nat)
    (best : Option α) :
    Bounded system enough (left * (s.maxIterations * (2 + enough)))
      (fun budget => (attemptsM (Counting.runner system) s system budget left restarts best :
        Counting α ρ _))
      (fun budget => attempts s system budget left restarts best) fun _ => True := by
  induction left generalizing restarts best with
  | zero => exact .halt nofun
  | succ left ih =>
    rw [show (left + 1) * (s.maxIterations * (2 + enough)) =
      0 + (s.maxIterations * (2 + enough) + left * (s.maxIterations * (2 + enough))) by ring]
    refine (startOf_bounded restarts).bind fun start _ => ?_
    have hstart : (⟨start, s.initialAlpha, none⟩ : Iterate α).alpha ≤ s.initialAlpha := le_rfl
    refine (attempt_bounded hs hshrinks s.maxIterations hstart).bind fun a _ => ?_
    cases a with
    | converged x residual iterations => exact .pure trivial
    | failed residual => exact ih ..

omit [RandomSource ρ α] in
theorem exists_least_shrunk [Archimedean α] (hs : s.Sound) (alpha : α) :
    ∃ k, IsLeast {k | alpha * s.alphaShrink ^ k ≤ s.minAlpha} k := by
  classical
  have hsome := exists_shrunk hs alpha
  exact ⟨Nat.find hsome, Nat.find_spec hsome, fun k hk => Nat.find_min' hsome hk⟩

/-- With settings that have been checked, a line search that begins with the scale `alpha` shrinks
it at most `k` times, where `k` is least such that the scale is then small enough. A solve comes to
an end, and how often it evaluates the residual is bounded by the settings, whatever the system and
the random numbers are. -/
theorem solve_bounded [Archimedean α] (hs : s.validate = .ok ()) :
    (∀ alpha : α, ∃ k, IsLeast {k | alpha * s.alphaShrink ^ k ≤ s.minAlpha} k ∧
      ∀ (system : NonlinearSystem α) (x dx y : List α) (error residual : α),
        Bounded system k k
          (fun budget => (Counting.lineSearch s system x dx error budget ⟨alpha, y, residual⟩ :
            Counting α ρ _))
          (fun budget => Drawing.ofOutcome
            (lineSearch s system x dx error budget ⟨alpha, y, residual⟩))
          fun trial => ∃ j ≤ k, trial.alpha = alpha * s.alphaShrink ^ j) ∧
    ∃ k, IsLeast {k | s.initialAlpha * s.alphaShrink ^ k ≤ s.minAlpha} k ∧
      ∀ system : NonlinearSystem α,
        Bounded system k (s.maxRestarts * (s.maxIterations * (2 + k)))
          (fun budget => (Counting.solve s system budget : Counting α ρ _))
          (fun budget => solve s system budget) fun _ => True := by
  have hsound := NewtonSettings.sound_of_validate hs
  constructor
  · intro alpha
    obtain ⟨k, hk⟩ := exists_least_shrunk hsound alpha
    exact ⟨k, hk, fun system x dx y error residual => lineSearch_bounded x dx error hk.1⟩
  · obtain ⟨k, hk⟩ := exists_least_shrunk hsound s.initialAlpha
    exact ⟨k, hk, fun system => attempts_bounded hsound hk.1 s.maxRestarts 0 none⟩

end Solver

/-! ## A residual that never improves -/

/-- The residual is one everywhere. -/
def constantOne : NonlinearSystem ℚ := .affine (.zeros 1) [-1] (fun _ => .voltage) [0]

/-- Two attempts with three rounds each. -/
def twoAttempts : NewtonSettings ℚ :=
  { NewtonSettings.standard with maxIterations := 3, maxRestarts := 2 }

theorem ends_constantOne : constantOne.Ends := ⟨fun _ => ends_ok _, fun _ => ends_ok _⟩

theorem isLeast_shrunk_twoAttempts :
    IsLeast {k | twoAttempts.initialAlpha * twoAttempts.alphaShrink ^ k ≤ twoAttempts.minAlpha}
      20 := by
  have hearlier : ∀ k < 20,
      ¬ twoAttempts.initialAlpha * twoAttempts.alphaShrink ^ k ≤ twoAttempts.minAlpha := by
    decide +kernel
  refine ⟨?_, fun k hk => not_lt.1 fun hlt => hearlier k hlt hk⟩
  show twoAttempts.initialAlpha * twoAttempts.alphaShrink ^ 20 ≤ twoAttempts.minAlpha
  decide +kernel

/-- The bound is attained: every line search shrinks the scale twenty times. -/
theorem solve_bounded_constantOne :
    twoAttempts.validate = .ok () ∧ constantOne.Ends ∧
    (∀ budget, 20 ≤ budget →
      (solve twoAttempts constantOne budget : Drawing ℚ (Script ℚ) _) =
        solve twoAttempts constantOne 20) ∧
    (∀ d', solve twoAttempts constantOne 20 undrawn ≠ .error .exhausted d') ∧
    (∃ n', n' ≤ 0 + 2 * (3 * (2 + 20)) ∧ Counting.solve twoAttempts constantOne 20 (undrawn, 0) =
      withCount n' (solve twoAttempts constantOne 20 undrawn)) ∧
    (after (Counting.solve twoAttempts constantOne 20 (undrawn, 0))).2 = 132 := by
  have hvalid : twoAttempts.validate = .ok () := eq_ok_of_isOk (by decide +kernel)
  obtain ⟨-, k, hk, hsolve⟩ := solve_bounded (ρ := Script ℚ) hvalid
  obtain rfl := hk.unique isLeast_shrunk_twoAttempts
  have hbounded := hsolve constantOne
  exact ⟨hvalid, ends_constantOne, hbounded.steady, hbounded.ends ends_constantOne undrawn,
    hbounded.counts 20 undrawn 0, by decide +kernel⟩

end Newton

end Nodal
