import Nodal.Proofs.NewtonTicks
import Nodal.Proofs.StepScale
import Nodal.Proofs.Stored

/-! # How long solutions are

Elimination finds a value for each unknown, and no step of the Newton solver changes how many there
are. So the solution of a tick has an entry for each node, ground included, and one for each source,
whatever the arithmetic. -/

namespace Nodal

/-! ## Elimination -/

theorem Row.length_of_solve {α : Type} [Scalar α] {n : Nat} {rows : List (Row α)} {xs : List α}
    (hn : rows.length = n) (h : solve n rows = .ok xs) : xs.length = n := by
  induction n generalizing rows xs with
  | zero =>
    cases h
    rfl
  | succ n ih =>
    obtain ⟨first, rest, rfl⟩ := List.exists_cons_of_length_eq_add_one hn
    obtain ⟨p, others, reduced, ys, t, -, hex, hred, hys, -, rfl⟩ := round_of_solve h
    obtain ⟨-, hperm⟩ := exchange_perm hex
    have hreduced : reduced.length = n := by
      rw [Outcome.length_of_mapM hred]
      exact Nat.succ_inj.1 (hperm.length_eq.trans hn)
    rw [List.length_cons, ih hreduced hys]

theorem Matrix.length_of_solve {α : Type} [Scalar α] {a : Matrix α} {b x : List α}
    (h : a.solve b = .ok x) : x.length = a.size := by
  refine Row.length_of_solve ?_ h
  rw [Row.length_zip, rows, List.length_map, List.length_range]

/-! ## Newton iteration -/

namespace Newton

section Rounds
variable {α ρ : Type} [Scalar α] [RandomSource ρ α] {s : NewtonSettings α}
  {system : NonlinearSystem α} {budget n : Nat}

omit [RandomSource ρ α] in
theorem length_of_newtonStep? (hsys : system.Total n) {x f dx : List α} (hx : x.length = n)
    (h : newtonStep? s system x f = .ok (some dx)) : dx.length = n := by
  obtain ⟨jacobian, steps, hjacobian, hsteps, hcut⟩ := newtonStep?_inv h
  obtain ⟨m, hm, hsize⟩ := hsys.jacobian x hx
  cases hm.symm.trans hjacobian
  rw [Outcome.length_of_mapM hcut, List.length_zipIdx, Matrix.length_of_solve hsteps]
  exact hsize

omit [RandomSource ρ α] in
/-- A line search ends with one of its trials. -/
theorem trial_of_lineSearch {x dx : List α} {error : α} {t t' : Trial α}
    (ht : ∃ alpha, trialAt system x dx alpha = .ok t)
    (h : lineSearch s system x dx error budget t = .ok t') :
    ∃ alpha, trialAt system x dx alpha = .ok t' := by
  unfold lineSearch at h
  induction budget generalizing t with
  | zero =>
    by_cases hgo : ¬ t.residual < error ∧ s.minAlpha < t.alpha
    · rw [lineSearchM_zero hgo] at h
      cases h
    · rw [lineSearchM_stay hgo] at h
      cases h
      exact ht
  | succ budget ih =>
    by_cases hgo : ¬ t.residual < error ∧ s.minAlpha < t.alpha
    · rw [lineSearchM_succ hgo] at h
      obtain ⟨t₁, ht₁, h⟩ := Outcome.bind_eq_ok.1 h
      exact ih ⟨_, ht₁⟩ h
    · rw [lineSearchM_stay hgo] at h
      cases h
      exact ht

omit [RandomSource ρ α] in
theorem Accepts.length {it : Iterate α} {trial : Trial α} (hsys : system.Total n)
    (hit : it.x.length = n) (h : Accepts s system budget it trial) : trial.x.length = n := by
  obtain ⟨f, dx, first, -, -, -, hstep, hfirst, hsearch, -⟩ := h
  obtain ⟨alpha, htrial⟩ := trial_of_lineSearch ⟨_, hfirst⟩ hsearch
  obtain ⟨-, hx, -⟩ := trialAt_inv htrial
  rw [hx]
  exact length_scaledStep hit (length_of_newtonStep? hsys hit hstep) alpha

/-- The best iterate has a value for each unknown. -/
def BestSized (n : Nat) (best : Option (α × List α)) : Prop :=
  ∀ r x, best = some (r, x) → x.length = n

omit [RandomSource ρ α] in
theorem bestSized_record {it : Iterate α} (hit : it.x.length = n) (hbest : BestSized n it.best)
    (error : α) : BestSized n (record it error) := by
  intro r x h
  unfold record at h
  split at h
  · cases h
    exact hit
  · exact hbest r x h

theorem length_of_settle {best : Option (α × List α)} {x : List α} {r : α} {k : Nat}
    (hbest : BestSized n best) (h : settle s best = .converged x r k) : x.length = n := by
  unfold settle at h
  split at h
  · cases h
  · split at h
    · cases h
      exact hbest _ _ rfl
    · cases h

/-- Rounds keep the length of the iterate, and with it that of the best one. -/
theorem length_of_attempt (hsys : system.Total n) {rounds : Nat} {it : Iterate α} {d d' : Draws ρ}
    {x : List α} {r : α} {k : Nat} (hit : it.x.length = n) (hbest : BestSized n it.best)
    (h : attempt s system budget rounds it d = .ok (.converged x r k) d') : x.length = n := by
  induction rounds generalizing it d with
  | zero =>
    simp only [attempt_zero, pure, EStateM.pure, EStateM.Result.ok.injEq] at h
    exact length_of_settle hbest h.1
  | succ rounds ih =>
    rw [attempt_succ] at h
    obtain ⟨p, d₁, hround, h⟩ := run_bind_eq_ok.1 h
    cases round_ends hround with
    | converged =>
      cases h
      exact hit
    | stuck =>
      simp only [pure, EStateM.pure, EStateM.Result.ok.injEq] at h
      exact length_of_settle (bestSized_record hit hbest _) h.1
    | accepted _ _ haccepts => exact ih (haccepts.length hsys hit) (bestSized_record hit hbest _) h
    | perturbed =>
      exact ih ((length_perturb _ _).trans hit) (bestSized_record hit hbest _) h

theorem AttemptStarts.length (hsys : system.Total n) {d₀ d : Draws ρ} {k : Nat} {x : List α}
    (h : AttemptStarts s system budget d₀ k x d) : x.length = n := by
  cases h with
  | first => exact hsys.guess
  | again => exact (length_perturb _ _).trans hsys.guess

theorem length_of_solve (hsys : system.Total n) {d d' : Draws ρ} {solution : NewtonSolution α}
    (h : solve s system budget d = .ok solution d') : solution.x.length = n := by
  obtain ⟨-, x, d₁, hstarts, hattempt⟩ := attempts_inv (.inl ⟨rfl, rfl⟩) h
  exact length_of_attempt hsys (hstarts.length hsys) (by rintro r y ⟨⟩) hattempt

end Rounds

end Newton

/-! ## Ticks -/

theorem Equation.length_of_solveWith {α ρ : Type} [Scalar α] [RandomSource ρ α] {l : Layout}
    {e : Equation α} {elements : List (Component α)} {budget : Nat}
    {newton newton' : NewtonSolver α ρ} {x : List α} (he : e.Fits l)
    (helements : ∀ d ∈ elements, d.Fits l)
    (h : e.solveWith elements budget newton = .ok x newton') : x.length = l.size := by
  by_cases hnil : elements = []
  · subst hnil
    unfold solveWith at h
    split at h
    · split at h
      · rename_i hsolve
        cases h
        rw [Matrix.length_of_solve hsolve]
        exact he.size_eq
      · cases h
    · rename_i hempty
      exact absurd rfl hempty
  · obtain ⟨-, solution, rfl, hsolve⟩ := solveWith_inv hnil h
    exact Newton.length_of_solve (total_toSystem he helements leakage) hsolve

/-- A tick finds a voltage for each node, ground included, and a current for each source. -/
theorem Simulator.Consistent.length_tick {α : Type} [Scalar α] {s s' : Simulator α} {budget : Nat}
    (hs : s.Consistent) (h : Simulator.tick budget s = .ok () s') :
    s'.solution.length = s'.circuit.numNodes + s'.circuit.numSources ∧
      s'.solution.length ≤ Equation.sizeLimit := by
  obtain ⟨e₀, companions, e, x, state, newton, he, hstamp, hsolve, -, rfl⟩ := tick_inv h
  obtain ⟨l, blank, hpart⟩ := Circuit.staticPart hs.numbered (hs.staticEquation_eq he)
  obtain ⟨e', hstamp', -, hfits, -⟩ :=
    hpart.stampTick_ok (Circuit.positive_of_stampTick hstamp) _ s.state
  cases hstamp'.symm.trans hstamp
  have hx : x.length = l.size := Equation.length_of_solveWith hfits
    (fun d hd => (Circuit.fits_nonlinear hpart.fits d hd).1) hsolve
  have htwo := l.two_le
  have hlt := l.size_lt
  simp only [List.length_cons, hx, Layout.size, hpart.fits.numNodes_eq, hpart.fits.numSources_eq,
    minNodes] at htwo ⊢
  omega

end Nodal
