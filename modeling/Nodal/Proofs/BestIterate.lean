import Nodal.Proofs.StepScale

/-! # What a failed attempt has looked at

An attempt records an iterate when a round begins there. So when it fails, none of the iterates at
which its rounds began was a near miss, and when the solver fails, none of those of all its attempts
was better than the residual that it reports. The trial that the last round accepts is not among
them: no round begins there, and it is forgotten however good it is (`last_trial_forgotten`). -/

namespace Nodal.Newton
open Drawing

section Records
variable {α ρ : Type} [Scalar α] [RandomSource ρ α] {s : NewtonSettings α}
  {system : NonlinearSystem α} {budget : Nat}

theorem Begins.starts {rounds left : Nat} {it it' : Iterate α} {d : Draws ρ}
    (h : Begins s system budget rounds it d left it') :
    RoundStarts s system budget rounds it d it'.x := by
  induction h with
  | here => exact .here
  | later hmoved _ ih => exact .later hmoved ih

/-- An iterate that an attempt from `x` takes up: its start or a trial that it accepts. So many
rounds are to go from there. -/
inductive TakesUp (s : NewtonSettings α) (system : NonlinearSystem α) (budget : Nat) (x : List α)
    (d : Draws ρ) : Nat → List α → Prop
  | start : TakesUp s system budget x d s.maxIterations x
  | accepted {left : Nat} {it : Iterate α} {trial : Trial α} :
      Begins s system budget s.maxIterations ⟨x, s.initialAlpha, none⟩ d left it →
      Accepts s system budget it trial → TakesUp s system budget x d left trial.x

theorem maxIterations_pos (hs : s.validate = .ok ()) : 0 < s.maxIterations := by
  unfold NewtonSettings.validate at hs
  split at hs
  · cases hs
  split at hs
  · cases hs
  split at hs
  · cases hs
  · rename_i hattempts
    exact Nat.pos_of_ne_zero fun hzero => hattempts (.inl hzero)

theorem starts_first (hs : s.validate = .ok ()) (it : Iterate α) (d : Draws ρ) :
    RoundStarts s system budget s.maxIterations it d it.x := by
  obtain ⟨rounds, hrounds⟩ := Nat.exists_eq_add_of_le' (maxIterations_pos hs)
  rw [hrounds]
  exact .here

/-- A round begins at an iterate that is taken up, if any is to go. -/
theorem TakesUp.starts (hs : s.validate = .ok ()) {left : Nat} {x y : List α} {d : Draws ρ}
    (h : TakesUp s system budget x d left y) (hleft : 0 < left ∨ y = x) :
    RoundStarts s system budget s.maxIterations ⟨x, s.initialAlpha, none⟩ d y := by
  obtain hleft | rfl := hleft
  · cases h with
    | start => exact starts_first hs ⟨x, s.initialAlpha, none⟩ d
    | accepted hbegins haccepts =>
      obtain ⟨fewer, rfl⟩ := Nat.exists_eq_add_of_le' hleft
      obtain ⟨best, hnext⟩ := hbegins.accepted haccepts
      exact hnext.starts
  · exact starts_first hs ⟨y, s.initialAlpha, none⟩ d

theorem Tracks.mono {seen seen' : List α → Prop} {best : Option (α × List α)}
    (h : Tracks s system seen best) (hseen : ∀ y, seen' y → seen y) :
    Tracks s system seen' best :=
  ⟨h.residual, fun r x hbest y e hy => h.least r x hbest y e (hseen y hy),
    fun hbest y e hy => h.infinite hbest y e (hseen y hy), fun y e hy => h.missed y e (hseen y hy)⟩

/-- An attempt that fails has tracked all iterates at which its rounds began. -/
theorem attempt_failed [OrderedScalar α] {rounds : Nat} {it : Iterate α} {d d' : Draws ρ}
    {seen : List α → Prop} {best : Option α} (h : Tracks s system seen it.best)
    (ha : attempt s system budget rounds it d = .ok (.failed best) d') :
    ∃ tracked, settle s tracked = .failed best ∧
      Tracks s system (fun y => seen y ∨ RoundStarts s system budget rounds it d y) tracked := by
  induction rounds generalizing it d seen with
  | zero =>
    simp only [attempt_zero, pure, EStateM.pure, EStateM.Result.ok.injEq] at ha
    refine ⟨it.best, ha.1, h.mono ?_⟩
    rintro y (hy | hy)
    · exact hy
    · cases hy
  | succ rounds ih =>
    rw [attempt_succ] at ha
    obtain ⟨p, d₁, hround, ha⟩ := run_bind_eq_ok.1 ha
    obtain ⟨error, herror, hp⟩ := round_inv hround
    rcases hp with ⟨-, rfl⟩ | ⟨hmiss, rfl⟩ | ⟨hmiss, z, alpha, rfl⟩
    · cases ha
    · simp only [pure, EStateM.pure, EStateM.Result.ok.injEq] at ha
      refine ⟨_, ha.1, (h.record herror hmiss).mono ?_⟩
      rintro y (hy | hy)
      · exact .inl hy
      · obtain hy | ⟨next, hnext, -⟩ := hy.inv hround
        · exact .inr hy
        · cases hnext
    · obtain ⟨tracked, hsettle, htracks⟩ := ih (h.record herror hmiss) ha
      refine ⟨tracked, hsettle, htracks.mono ?_⟩
      rintro y (hy | hy)
      · exact .inl (.inl hy)
      · obtain hy | ⟨next, hnext, hy⟩ := hy.inv hround
        · exact .inl (.inr hy)
        · cases hnext
          exact .inr hy

theorem settle_failed {tracked : Option (α × List α)} {best : Option α}
    (h : settle s tracked = .failed best) :
    best = tracked.map Prod.fst ∧ ∀ r x, tracked = some (r, x) → ¬ r < s.tolerance * 10.0 := by
  unfold settle at h
  split at h
  · cases h
    exact ⟨rfl, nofun⟩
  · split at h
    · cases h
    · rename_i hfar
      cases h
      refine ⟨rfl, ?_⟩
      rintro r x ⟨⟩
      exact hfar

/-- An attempt has one start. -/
theorem AttemptStarts.unique {d₀ d d' : Draws ρ} {k : Nat} {x x' : List α}
    (h : AttemptStarts s system budget d₀ k x d) (h' : AttemptStarts s system budget d₀ k x' d') :
    x = x' ∧ d = d' := by
  induction h generalizing x' d' with
  | first =>
    cases h'
    exact ⟨rfl, rfl⟩
  | again _ hfailed ih =>
    cases h' with
    | again hbefore hfailed' =>
      obtain ⟨rfl, rfl⟩ := ih hbefore
      cases hfailed.symm.trans hfailed'
      exact ⟨rfl, rfl⟩

end Records

/-! ## Residuals that are reported -/

section Reports
variable {α ρ : Type} [ExactScalar α] [RandomSource ρ α] {s : NewtonSettings α}
  {system : NonlinearSystem α} {budget : Nat}

/-- A residual is reported, and it is not above `e`. -/
def Reports (best : Option α) (e : α) : Prop := ∃ b, best = some b ∧ b ≤ e

theorem reports_bestOf_left {best : Option α} {e : α} (h : Reports best e) (r : Option α) :
    Reports (bestOf best r) e := by
  obtain ⟨b, rfl, hb⟩ := h
  cases r with
  | none => exact ⟨b, rfl, hb⟩
  | some r =>
    by_cases hlt : r < b
    · exact ⟨r, by simp [bestOf, improves, hlt], hlt.le.trans hb⟩
    · exact ⟨b, by simp [bestOf, improves, hlt], hb⟩

theorem reports_bestOf_right {r : Option α} {e : α} (h : Reports r e) (best : Option α) :
    Reports (bestOf best r) e := by
  obtain ⟨r, rfl, hr⟩ := h
  cases best with
  | none => exact ⟨r, by simp [bestOf, improves], hr⟩
  | some b =>
    by_cases hlt : r < b
    · exact ⟨r, by simp [bestOf, improves, hlt], hr⟩
    · exact ⟨b, by simp [bestOf, improves, hlt], (not_lt.1 hlt).trans hr⟩

/-- A failed attempt has met no near miss, and it reports the smallest residual that it has met. -/
theorem attemptFrom_failed {x y : List α} {d d' : Draws ρ} {best : Option α} {e : α}
    (h : attemptFrom s system budget x d = .ok (.failed best) d')
    (hy : RoundStarts s system budget s.maxIterations ⟨x, s.initialAlpha, none⟩ d y)
    (he : residualNorm system y = .ok e) : s.tolerance * 10 ≤ e ∧ Reports best e := by
  obtain ⟨tracked, hsettle, htracks⟩ := attempt_failed tracks_none h
  obtain ⟨rfl, hfar⟩ := settle_failed hsettle
  cases tracked with
  | none => exact nomatch htracks.infinite rfl y e (.inr hy) he rfl
  | some best =>
    obtain ⟨r, z⟩ := best
    have hle : r ≤ e := htracks.least r z rfl y e (.inr hy) he rfl
    have hten : (10.0 : α) = 10 := by norm_num
    have hfar := not_lt.1 (hfar r z rfl)
    rw [hten] at hfar
    exact ⟨hfar.trans hle, r, rfl, hle⟩

/-- The residual reported in the end is not above what has been reported before, nor above what any
of the attempts that are left reports. -/
theorem attempts_failed_reports (hsys : system.Infallible) {d₀ d d' : Draws ρ}
    {left restarts n : Nat} {best last : Option α} (h : Pending s system budget d₀ restarts d)
    (ha : attempts s system budget left restarts best d =
      .error (.failed (.noConvergence n last)) d') :
    (∀ e, Reports best e → Reports last e) ∧
    ∀ k, restarts ≤ k → k < restarts + left → ∀ x d₁, AttemptStarts s system budget d₀ k x d₁ →
      ∃ r d₂, attemptFrom s system budget x d₁ = .ok (.failed r) d₂ ∧
        ∀ e, Reports r e → Reports last e := by
  induction left generalizing restarts best d with
  | zero =>
    cases ha
    exact ⟨fun _ => id, fun k hle hlt => by omega⟩
  | succ left ih =>
    rw [attempts_succ] at ha
    rcases run_bind_eq_error.1 ha with ha | ⟨x, d₁, hstart, ha⟩
    · unfold startOf startM at ha
      split at ha <;> cases ha
    rcases run_bind_eq_error.1 ha with ha | ⟨a, d₂, hattempt, ha⟩
    · exact absurd ha (attempt_ne_failed hsys)
    cases a with
    | converged z r n => cases ha
    | failed r =>
      have hx := start_inv h hstart
      obtain ⟨hbest, hrest⟩ := ih (.inr ⟨restarts, x, d₁, r, rfl, hx, hattempt⟩) ha
      refine ⟨fun e he => hbest e (reports_bestOf_left he r), fun k hle hlt y d₃ hy => ?_⟩
      by_cases hk : k = restarts
      · subst hk
        obtain ⟨rfl, rfl⟩ := hx.unique hy
        exact ⟨r, d₂, hattempt, fun e he => hbest e (reports_bestOf_right he best)⟩
      · exact hrest k (by omega) (by omega) y d₃ hy

/-- When an attempt fails, its start and all trials that it has accepted, but for one accepted in
its last round, have a residual of at least ten times the tolerance. When the solver fails, the
residual that it reports is not above that of any of these in any attempt. -/
theorem failed_attempts_recorded (hs : s.validate = .ok ()) (hsys : system.Infallible)
    (budget : Nat) :
    (∀ (x : List α) (d d' : Draws ρ) (best : Option α),
      attemptFrom s system budget x d = .ok (.failed best) d' →
      ∀ left y e, TakesUp s system budget x d left y → 0 < left ∨ y = x →
        residualNorm system y = .ok e → s.tolerance * 10 ≤ e) ∧
    ∀ (d d' : Draws ρ) (n : Nat) (best : Option α),
      solve s system budget d = .error (.failed (.noConvergence n best)) d' →
      ∀ k x d₁, k < s.maxRestarts → AttemptStarts s system budget d k x d₁ →
      ∀ left y e, TakesUp s system budget x d₁ left y → 0 < left ∨ y = x →
        residualNorm system y = .ok e → ∃ b, best = some b ∧ b ≤ e := by
  refine ⟨fun x d d' best hfailed left y e hy hleft he =>
    (attemptFrom_failed hfailed (hy.starts hs hleft) he).1,
    fun d d' n best hfailed k x d₁ hk hx left y e hy hleft he => ?_⟩
  obtain ⟨-, hall⟩ := attempts_failed_reports hsys (.inl ⟨rfl, rfl⟩) hfailed
  obtain ⟨r, d₂, hattempt, hreports⟩ := hall k (Nat.zero_le k) (by omega) x d₁ hx
  exact hreports e (attemptFrom_failed hattempt (hy.starts hs hleft) he).2

end Reports

/-! ## A root that is forgotten -/

/-- What an attempt reports when it has failed. -/
def failure? {ε σ α : Type} : EStateM.Result ε σ (Attempt α) → Option (Option α)
  | .ok (.failed best) _ => some best
  | _ => none

theorem exists_of_failure? {ε σ α : Type} {r : EStateM.Result ε σ (Attempt α)} {best : Option α}
    (h : failure? r = some best) : ∃ s, r = .ok (.failed best) s := by
  unfold failure? at h
  split at h
  · rename_i s
    cases h
    exact ⟨s, rfl⟩
  · cases h

/-- What a solver reports that has not converged: its attempts and their best residual. -/
def unsolved? {σ α β : Type} : EStateM.Result (Halt α) σ β → Option (Nat × Option α)
  | .error (.failed (.noConvergence restarts best)) _ => some (restarts, best)
  | _ => none

theorem exists_of_unsolved? {σ α β : Type} {r : EStateM.Result (Halt α) σ β} {n : Nat}
    {best : Option α} (h : unsolved? r = some (n, best)) :
    ∃ s, r = .error (.failed (.noConvergence n best)) s := by
  unfold unsolved? at h
  split at h
  · rename_i s
    cases h
    exact ⟨s, rfl⟩
  · cases h

/-- Twice the unknown is one. -/
def half : NonlinearSystem ℚ :=
  PolynomialSystem.toSystem [[⟨2, [1]⟩, ⟨-1, [0]⟩]] (fun _ => .voltage) [0]

/-- One attempt with so many rounds and this longest step. -/
def oneAttempt (rounds : Nat) (longest : ℚ) : NewtonSettings ℚ :=
  { NewtonSettings.standard with
    maxIterations := rounds, maxRestarts := 1, maxVoltageStep := longest }

theorem accepts_half {rounds : Nat} {longest moved residual : ℚ}
    (hstep : newtonStep? (oneAttempt 0 longest) half [0] [-1] = .ok (some [longest]))
    (hmoved : scaledStep [0] [longest] 1 = [moved])
    (htrial : residualNorm half [moved] = .ok residual) (himproves : residual < 1) :
    Accepts (oneAttempt rounds longest) half 0 ⟨[0], 1, none⟩ ⟨1, [moved], residual⟩ := by
  have hres : half.residual [0] = .ok [-1] := eq_ok_of_toOption (by decide +kernel)
  have hnorm : Scalar.norm [(-1 : ℚ)] = 1 := by decide +kernel
  have hmiss : ¬ (1 : ℚ) < (oneAttempt 0 0).tolerance := by decide +kernel
  rw [← hmoved] at htrial ⊢
  exact accepts_first hres (by rw [hnorm]; exact hmiss) rfl hstep htrial
    (by rw [hnorm]; exact himproves)

/-- Two rounds with steps of a quarter end at the root, but only the first step is recorded. -/
theorem failed_attempts_recorded_half :
    (oneAttempt 2 (1 / 4)).validate = .ok () ∧ half.Infallible ∧
    TakesUp (oneAttempt 2 (1 / 4)) half 0 [0] undrawn 1 [1 / 4] ∧
    residualNorm half [1 / 4] = .ok (1 / 4) ∧
    (∃ best d', attemptFrom (oneAttempt 2 (1 / 4)) half 0 [0] undrawn = .ok (.failed best) d' ∧
      (oneAttempt 2 (1 / 4)).tolerance * 10 ≤ 1 / 4) ∧
    ∃ best d', solve (oneAttempt 2 (1 / 4)) half 0 undrawn =
      .error (.failed (.noConvergence 1 best)) d' ∧ ∃ b, best = some b ∧ b ≤ 1 / 4 := by
  have hvalid : (oneAttempt 2 (1 / 4)).validate = .ok () := eq_ok_of_isOk (by decide +kernel)
  have hsys : half.Infallible := PolynomialSystem.infallible_toSystem _ _ _
  have htrial : residualNorm half [1 / 4] = .ok (1 / 4) := eq_ok_of_toOption (by decide +kernel)
  have htakes : TakesUp (oneAttempt 2 (1 / 4)) half 0 [0] undrawn 1 [1 / 4] :=
    .accepted .here (accepts_half (eq_ok_of_toOption (by decide +kernel)) (by decide +kernel)
      htrial (by decide +kernel))
  obtain ⟨d₁, hfailed⟩ : ∃ d', attemptFrom (oneAttempt 2 (1 / 4)) half 0 [0] undrawn =
      .ok (.failed (some (1 / 4))) d' := exists_of_failure? (by decide +kernel)
  obtain ⟨d₂, hreported⟩ : ∃ d', solve (oneAttempt 2 (1 / 4)) half 0 undrawn =
      .error (.failed (.noConvergence 1 (some (1 / 4)))) d' :=
    exists_of_unsolved? (by decide +kernel)
  obtain ⟨hten, hleast⟩ := failed_attempts_recorded (ρ := Script ℚ) hvalid hsys 0
  exact ⟨hvalid, hsys, htakes, htrial,
    ⟨_, d₁, hfailed, hten _ _ _ _ hfailed _ _ _ htakes (.inl Nat.one_pos) htrial⟩,
    _, d₂, hreported,
    hleast _ _ _ _ hreported 0 _ _ Nat.one_pos .first _ _ _ htakes (.inl Nat.one_pos) htrial⟩

/-- One round with a step of one half ends at the root. The attempt fails all the same, and the
solver reports the residual of the start. -/
theorem last_trial_forgotten :
    (oneAttempt 1 (1 / 2)).validate = .ok () ∧ half.Infallible ∧
    (∃ d', attemptFrom (oneAttempt 1 (1 / 2)) half 0 [0] undrawn = .ok (.failed (some 1)) d') ∧
    TakesUp (oneAttempt 1 (1 / 2)) half 0 [0] undrawn 0 [1 / 2] ∧
    residualNorm half [1 / 2] = .ok 0 ∧ ¬ (oneAttempt 1 (1 / 2)).tolerance * 10 ≤ 0 ∧
    (∃ d', solve (oneAttempt 1 (1 / 2)) half 0 undrawn =
      .error (.failed (.noConvergence 1 (some 1))) d') ∧ ¬ (1 : ℚ) ≤ 0 := by
  have htrial : residualNorm half [1 / 2] = .ok 0 := eq_ok_of_toOption (by decide +kernel)
  have htakes : TakesUp (oneAttempt 1 (1 / 2)) half 0 [0] undrawn 0 [1 / 2] :=
    .accepted .here (accepts_half (eq_ok_of_toOption (by decide +kernel)) (by decide +kernel)
      htrial (by decide +kernel))
  exact ⟨eq_ok_of_isOk (by decide +kernel), PolynomialSystem.infallible_toSystem _ _ _,
    exists_of_failure? (by decide +kernel), htakes, htrial, by decide +kernel,
    exists_of_unsolved? (by decide +kernel), by decide +kernel⟩

end Nodal.Newton
