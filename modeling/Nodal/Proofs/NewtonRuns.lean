import Nodal.Proofs.Order
import Nodal.Proofs.Infallible
import Nodal.Newton.Solver

/-! # Runs of the Newton solver

A round converges, gets stuck, accepts a trial of its line search or perturbs its iterate
(`Newton.RoundEnds`). Whatever the system and the random numbers, an attempt keeps its best iterate
together with the residual of it (`Newton.Tracks`). What the solver returns is therefore an iterate
with its own residual, below the near-miss limit, and none of the iterates at which a round of the
successful attempt began was better. -/

namespace Nodal

/-! ## Steps of a computation that draws -/

namespace Drawing
variable {α ρ β γ : Type}

theorem ofOutcome_inv {o : Outcome α β} {b : β} {d d' : Draws ρ}
    (h : (Drawing.ofOutcome o : Drawing α ρ β) d = .ok b d') : o = .ok b ∧ d' = d := by
  cases o with
  | ok v => cases h; exact ⟨rfl, rfl⟩
  | error e => cases h

theorem ofOutcome_ne_failed {o : Outcome α β} (h : Outcome.Unfailing o) {d d' : Draws ρ}
    {g : Failure α} : (Drawing.ofOutcome o : Drawing α ρ β) d ≠ .error (.failed g) d' := by
  intro heq
  cases o with
  | ok v => cases heq
  | error e =>
    cases heq
    exact h g rfl

end Drawing

namespace Newton
open Drawing
variable {α ρ : Type} [Scalar α] [RandomSource ρ α] {s : NewtonSettings α}
  {system : NonlinearSystem α} {budget : Nat}

/-! ## The iteration, step by step -/

theorem residualNorm_ok {x f : List α} (h : system.residual x = .ok f) :
    residualNorm system x = .ok (Scalar.norm f) := by
  rw [residualNorm, h]
  rfl

section Search
variable {e : Type → Type} [Monad e] [MonadExceptOf (Halt α) e] {residual : List α → e (List α)}
  {x dx : List α} {error : α} {t : Trial α}

/-- A line search that is over has its result. -/
theorem lineSearchM_stay (hstop : ¬ (¬ t.residual < error ∧ s.minAlpha < t.alpha)) (budget : Nat) :
    lineSearchM residual s x dx error budget t = pure t := by
  unfold lineSearchM
  exact if_neg hstop

theorem lineSearchM_zero (hgo : ¬ t.residual < error ∧ s.minAlpha < t.alpha) :
    lineSearchM residual s x dx error 0 t = throw .exhausted := by
  unfold lineSearchM
  exact if_pos hgo

theorem lineSearchM_succ (hgo : ¬ t.residual < error ∧ s.minAlpha < t.alpha) (budget : Nat) :
    lineSearchM residual s x dx error (budget + 1) t =
      trialAtM residual x dx (t.alpha * s.alphaShrink) >>=
        lineSearchM residual s x dx error budget := by
  rw [lineSearchM, if_pos hgo]

end Search

theorem attempt_zero (it : Iterate α) :
    (attempt s system budget 0 it : Drawing α ρ (Attempt α)) = pure (settle s it.best) := rfl

theorem attempt_succ (rounds : Nat) (it : Iterate α) :
    (attempt s system budget (rounds + 1) it : Drawing α ρ (Attempt α)) = (do
      match ← round s system budget it with
      | .converged x residual => return .converged x residual (s.maxIterations - (rounds + 1))
      | .stuck best => return settle s best
      | .moved next => attempt s system budget rounds next) := rfl

/-- Where the attempt after a number of failed ones starts. -/
def startOf (s : NewtonSettings α) (system : NonlinearSystem α) (restarts : Nat) :
    Drawing α ρ (List α) :=
  startM (.plain system) s system restarts

theorem attempts_succ (left restarts : Nat) (best : Option α) :
    (attempts s system budget (left + 1) restarts best : Drawing α ρ (NewtonSolution α)) = (do
      let start ← startOf s system restarts
      match ← attemptFrom s system budget start with
      | .converged x residual iterations => return { x, residual, iterations, restarts }
      | .failed residual =>
        attempts s system budget left (restarts + 1) (bestOf best residual)) := rfl

/-! ## What a run goes through -/

/-- A round begins at `x`, in an attempt that has a number of rounds left. -/
inductive RoundStarts (s : NewtonSettings α) (system : NonlinearSystem α) (budget : Nat) :
    Nat → Iterate α → Draws ρ → List α → Prop
  | here {rounds : Nat} {it : Iterate α} {d : Draws ρ} :
      RoundStarts s system budget (rounds + 1) it d it.x
  | later {rounds : Nat} {it next : Iterate α} {d d' : Draws ρ} {x : List α} :
      round s system budget it d = .ok (.moved next) d' →
      RoundStarts s system budget rounds next d' x →
      RoundStarts s system budget (rounds + 1) it d x

/-- The attempt after a number of failed ones starts at `x`, with these random numbers left. -/
inductive AttemptStarts (s : NewtonSettings α) (system : NonlinearSystem α) (budget : Nat)
    (d₀ : Draws ρ) : Nat → List α → Draws ρ → Prop
  | first : AttemptStarts s system budget d₀ 0 system.guess d₀
  | again {restarts : Nat} {x : List α} {d d' : Draws ρ} {best : Option α} :
      AttemptStarts s system budget d₀ restarts x d →
      attemptFrom s system budget x d = .ok (.failed best) d' →
      AttemptStarts s system budget d₀ (restarts + 1) (perturb s system.guess d').1
        (perturb s system.guess d').2

/-! ## One round -/

/-- A round at the iterate has not met the tolerance, and its line search ends with this trial,
which is an improvement. -/
def Accepts (s : NewtonSettings α) (system : NonlinearSystem α) (budget : Nat) (it : Iterate α)
    (trial : Trial α) : Prop :=
  ∃ f dx first, system.residual it.x = .ok f ∧ ¬ Scalar.norm f < s.tolerance ∧
    Scalar.isFinite (Scalar.norm f) ∧ newtonStep? s system it.x f = .ok (some dx) ∧
    trialAt system it.x dx it.alpha = .ok first ∧
    lineSearch s system it.x dx (Scalar.norm f) budget first = .ok trial ∧
    trial.residual < Scalar.norm f

/-- The scale of the round that follows an accepted trial. -/
def nextAlpha (s : NewtonSettings α) (trial : Trial α) : α :=
  Scalar.min s.initialAlpha (trial.alpha * s.alphaGrowth)

/-- How a round ends, and what it leaves of the random numbers. -/
inductive RoundEnds (s : NewtonSettings α) (system : NonlinearSystem α) (budget : Nat)
    (it : Iterate α) (d : Draws ρ) : Progress α → Draws ρ → Prop
  | converged {error : α} : residualNorm system it.x = .ok error → error < s.tolerance →
      RoundEnds s system budget it d (.converged it.x error) d
  | stuck {error : α} : residualNorm system it.x = .ok error → ¬ error < s.tolerance →
      RoundEnds s system budget it d (.stuck (record it error)) d
  | accepted {error : α} {trial : Trial α} : residualNorm system it.x = .ok error →
      ¬ error < s.tolerance → Accepts s system budget it trial →
      RoundEnds s system budget it d (.moved ⟨trial.x, nextAlpha s trial, record it error⟩) d
  | perturbed {error : α} : residualNorm system it.x = .ok error → ¬ error < s.tolerance →
      RoundEnds s system budget it d
        (.moved ⟨(perturb s it.x d).1, s.initialAlpha, record it error⟩) (perturb s it.x d).2

theorem round_ends {it : Iterate α} {p : Progress α} {d d' : Draws ρ}
    (h : round s system budget it d = .ok p d') : RoundEnds s system budget it d p d' := by
  unfold round roundM at h
  obtain ⟨f, d₁, hf, hrest⟩ := run_bind_eq_ok.1 h
  obtain ⟨hres, rfl⟩ := ofOutcome_inv hf
  have herror : residualNorm system it.x = .ok (Scalar.norm f) := residualNorm_ok hres
  split at hrest
  · cases hrest
    exact .converged herror ‹_›
  rename_i hmiss
  split at hrest
  · cases hrest
    exact .stuck herror hmiss
  rename_i hfinite
  obtain ⟨step, d₂, hdetermined, hstep⟩ := run_bind_eq_ok.1 hrest
  obtain ⟨hnewton, rfl⟩ := ofOutcome_inv hdetermined
  cases step with
  | none =>
    cases hstep
    exact .stuck herror hmiss
  | some dx =>
    simp only at hstep
    obtain ⟨first, d₃, htried, hfirst⟩ := run_bind_eq_ok.1 hstep
    obtain ⟨htry, rfl⟩ := ofOutcome_inv htried
    obtain ⟨trial, d₄, hsearched, htrial⟩ := run_bind_eq_ok.1 hfirst
    obtain ⟨hsearch, rfl⟩ := ofOutcome_inv hsearched
    split at htrial
    · cases htrial
      exact .accepted herror hmiss
        ⟨f, dx, first, hres, hmiss, by simpa using hfinite, hnewton, htry, hsearch, ‹_›⟩
    · cases htrial
      exact .perturbed herror hmiss

/-- A round ends in one of three ways: it has met the tolerance, or it has not, and then it is stuck
or goes on; whichever it is, the iterate has been recorded. -/
theorem round_inv {it : Iterate α} {p : Progress α} {d d' : Draws ρ}
    (h : round s system budget it d = .ok p d') :
    ∃ error, residualNorm system it.x = .ok error ∧
      (error < s.tolerance ∧ p = .converged it.x error ∨
        ¬ error < s.tolerance ∧ p = .stuck (record it error) ∨
        ¬ error < s.tolerance ∧ ∃ x alpha, p = .moved ⟨x, alpha, record it error⟩) := by
  cases round_ends h with
  | converged herror hlt => exact ⟨_, herror, .inl ⟨hlt, rfl⟩⟩
  | stuck herror hmiss => exact ⟨_, herror, .inr (.inl ⟨hmiss, rfl⟩)⟩
  | accepted herror hmiss _ => exact ⟨_, herror, .inr (.inr ⟨hmiss, _, _, rfl⟩)⟩
  | perturbed herror hmiss => exact ⟨_, herror, .inr (.inr ⟨hmiss, _, _, rfl⟩)⟩

/-! ## One attempt -/

/-- The best iterate so far is better than all iterates that rounds began at, and it comes with its
own residual. None of these iterates has met the tolerance. -/
structure Tracks (s : NewtonSettings α) (system : NonlinearSystem α) (seen : List α → Prop)
    (best : Option (α × List α)) : Prop where
  residual : ∀ r x, best = some (r, x) → residualNorm system x = .ok r ∧ Scalar.isFinite r
  least : ∀ r x, best = some (r, x) → ∀ y e, seen y → residualNorm system y = .ok e →
    Scalar.isNaN e = false → r ≤ e
  infinite : best = none → ∀ y e, seen y → residualNorm system y = .ok e →
    Scalar.isNaN e = false → Scalar.isFinite e = false
  missed : ∀ y e, seen y → residualNorm system y = .ok e → ¬ e < s.tolerance

theorem tracks_none : Tracks s system (fun _ => False) none :=
  ⟨nofun, nofun, fun _ _ _ => nofun, fun _ _ => nofun⟩

/-- What an attempt accepts: an iterate with its own residual, which is small enough and at most
that of all iterates seen. -/
structure Accepted (s : NewtonSettings α) (system : NonlinearSystem α) (seen : List α → Prop)
    (x : List α) (r : α) (iterations : Nat) : Prop where
  residual : residualNorm system x = .ok r
  near : r < s.tolerance * 10.0
  met : iterations < s.maxIterations → r < s.tolerance
  iterations_le : iterations ≤ s.maxIterations
  least : ∀ y e, seen y → residualNorm system y = .ok e → Scalar.isNaN e = false → r ≤ e

theorem Accepted.mono {seen seen' : List α → Prop} {x : List α} {r : α} {n : Nat}
    (h : Accepted s system seen x r n) (hseen : ∀ y, seen' y → seen y) :
    Accepted s system seen' x r n :=
  ⟨h.residual, h.near, h.met, h.iterations_le, fun y e hy => h.least y e (hseen y hy)⟩

theorem settle_accepted {seen : List α → Prop} {best : Option (α × List α)} {x : List α} {r : α}
    {n : Nat} (h : Tracks s system seen best) (hs : settle s best = .converged x r n) :
    Accepted s system seen x r n := by
  unfold settle at hs
  split at hs
  · cases hs
  · rename_i b z
    split at hs
    · rename_i hnear
      cases hs
      exact ⟨(h.residual _ _ rfl).1, hnear, fun hn => absurd hn (Nat.lt_irrefl _), Nat.le_refl _,
        h.least _ _ rfl⟩
    · cases hs

section Laws
variable [OrderedScalar α]
open OrderedScalar

theorem norm_nonneg_of_residualNorm {x : List α} {e : α} (h : residualNorm system x = .ok e)
    (he : Scalar.isNaN e = false) : 0 ≤ e := by
  unfold residualNorm at h
  obtain ⟨f, -, hf⟩ := Outcome.bind_eq_ok.1 h
  cases hf
  exact norm_nonneg f he

theorem lt_mul_ten_of_residualNorm {x : List α} {e t : α} (h : residualNorm system x = .ok e)
    (he : e < t) : e < t * 10.0 := by
  unfold residualNorm at h
  obtain ⟨f, -, hf⟩ := Outcome.bind_eq_ok.1 h
  cases hf
  exact norm_lt_mul_ten he

section Record
variable {seen : List α → Prop} {best : Option (α × List α)} {x : List α} {error : α}

/-- The best iterate may be replaced by one that is at least as good as all others. -/
theorem Tracks.replace (h : Tracks s system seen best) (herror : residualNorm system x = .ok error)
    (hmiss : ¬ error < s.tolerance) (hfin : Scalar.isFinite error)
    (hleast : ∀ y e, seen y → residualNorm system y = .ok e → Scalar.isNaN e = false → error ≤ e) :
    Tracks s system (fun y => seen y ∨ y = x) (some (error, x)) := by
  refine ⟨?_, ?_, nofun, ?_⟩
  · rintro r y ⟨⟩
    exact ⟨herror, hfin⟩
  · rintro r y' ⟨⟩ y e (hy | rfl) he hnan
    · exact hleast y e hy he hnan
    · cases herror.symm.trans he
      exact le_refl hnan
  · rintro y e (hy | rfl) he
    · exact h.missed y e hy he
    · cases herror.symm.trans he
      exact hmiss

omit [OrderedScalar α] in
/-- The best iterate is kept when the next one is not better. -/
theorem Tracks.keep (h : Tracks s system seen best) (herror : residualNorm system x = .ok error)
    (hmiss : ¬ error < s.tolerance)
    (hleast : ∀ r z, best = some (r, z) → Scalar.isNaN error = false → r ≤ error)
    (hinf : best = none → Scalar.isFinite error = false) :
    Tracks s system (fun y => seen y ∨ y = x) best := by
  refine ⟨h.residual, ?_, ?_, ?_⟩
  · rintro r z hz y e (hy | rfl) he hnan
    · exact h.least r z hz y e hy he hnan
    · cases herror.symm.trans he
      exact hleast r z hz hnan
  · rintro hnone y e (hy | rfl) he hnan
    · exact h.infinite hnone y e hy he hnan
    · cases herror.symm.trans he
      exact hinf hnone
  · rintro y e (hy | rfl) he
    · exact h.missed y e hy he
    · cases herror.symm.trans he
      exact hmiss

theorem Tracks.record {alpha : α} (h : Tracks s system seen best)
    (herror : residualNorm system x = .ok error) (hmiss : ¬ error < s.tolerance) :
    Tracks s system (fun y => seen y ∨ y = x) (Newton.record ⟨x, alpha, best⟩ error) := by
  cases best with
  | none =>
    by_cases hfin : Scalar.isFinite error
    · have hrec : Newton.record ⟨x, alpha, none⟩ error = some (error, x) := by
        simp [Newton.record, improves, hfin]
      rw [hrec]
      -- all residuals before have been infinite
      refine h.replace herror hmiss hfin fun y e hy he hnan => ?_
      exact le_infinite _ _ hfin hnan (h.infinite rfl y e hy he hnan)
        (norm_nonneg_of_residualNorm he hnan)
    · have hrec : Newton.record ⟨x, alpha, none⟩ error = none := by
        simp [Newton.record, improves, hfin]
      rw [hrec]
      exact h.keep herror hmiss nofun fun _ => by simpa using hfin
  | some best =>
    obtain ⟨b, z⟩ := best
    obtain ⟨-, hb⟩ := h.residual b z rfl
    by_cases hlt : error < b
    · have hrec : Newton.record ⟨x, alpha, some (b, z)⟩ error = some (error, x) := by
        simp [Newton.record, improves, hlt]
      obtain ⟨hnan, -, hle⟩ := (lt_iff _ _).1 hlt
      have hfin : Scalar.isFinite error := by
        by_contra hfin
        exact hle (le_infinite _ _ hb hnan (by simpa using hfin)
          (norm_nonneg_of_residualNorm herror hnan))
      rw [hrec]
      exact h.replace herror hmiss hfin fun y e hy he hnan =>
        le_trans _ _ _ (le_of_lt hlt) (h.least b z rfl y e hy he hnan)
    · have hrec : Newton.record ⟨x, alpha, some (b, z)⟩ error = some (b, z) := by
        simp [Newton.record, improves, hlt]
      rw [hrec]
      refine h.keep herror hmiss ?_ nofun
      rintro r z' ⟨⟩ hnan
      exact le_of_not_lt hnan (isNaN_of_isFinite b hb) hlt

end Record

omit [OrderedScalar α] in
/-- After its first round an attempt starts others only where that round has moved to. -/
theorem RoundStarts.inv {rounds : Nat} {it : Iterate α} {d d₁ : Draws ρ} {p : Progress α}
    {y : List α} (hround : round s system budget it d = .ok p d₁)
    (h : RoundStarts s system budget (rounds + 1) it d y) :
    y = it.x ∨ ∃ next, p = .moved next ∧ RoundStarts s system budget rounds next d₁ y := by
  cases h with
  | here => exact .inl rfl
  | later hmoved h =>
    rw [hround] at hmoved
    cases hmoved
    exact .inr ⟨_, rfl, h⟩

/-- What an attempt returns is accepted against all iterates at which a round began. -/
theorem attempt_accepted {rounds : Nat} {it : Iterate α} {d d' : Draws ρ} {seen : List α → Prop}
    {x : List α} {r : α} {n : Nat} (h : Tracks s system seen it.best)
    (hrounds : rounds ≤ s.maxIterations)
    (ha : attempt s system budget rounds it d = .ok (.converged x r n) d') :
    Accepted s system (fun y => seen y ∨ RoundStarts s system budget rounds it d y) x r n := by
  induction rounds generalizing it d seen with
  | zero =>
    simp only [attempt_zero, pure, EStateM.pure, EStateM.Result.ok.injEq] at ha
    refine (settle_accepted h ha.1).mono ?_
    rintro y (hy | hy)
    · exact hy
    · cases hy
  | succ rounds ih =>
    rw [attempt_succ] at ha
    obtain ⟨p, d₁, hround, ha⟩ := run_bind_eq_ok.1 ha
    obtain ⟨error, herror, hp⟩ := round_inv hround
    rcases hp with ⟨hlt, rfl⟩ | ⟨hmiss, rfl⟩ | ⟨hmiss, z, alpha, rfl⟩
    · cases ha
      refine ⟨herror, lt_mul_ten_of_residualNorm herror hlt, fun _ => hlt, Nat.sub_le .., ?_⟩
      rintro y e (hy | hy) he hnan
      · have htol := ((lt_iff _ _).1 hlt).2.1
        exact le_trans _ _ _ (le_of_lt hlt) (le_of_not_lt hnan htol (h.missed y e hy he))
      · obtain rfl | ⟨next, hnext, -⟩ := hy.inv hround
        · cases herror.symm.trans he
          exact le_refl hnan
        · cases hnext
    · simp only [pure, EStateM.pure, EStateM.Result.ok.injEq] at ha
      refine (settle_accepted (h.record herror hmiss) ha.1).mono ?_
      rintro y (hy | hy)
      · exact .inl hy
      · obtain hy | ⟨next, hnext, -⟩ := hy.inv hround
        · exact .inr hy
        · cases hnext
    · refine (ih (h.record herror hmiss) (Nat.le_of_succ_le hrounds) ha).mono ?_
      rintro y (hy | hy)
      · exact .inl (.inl hy)
      · obtain hy | ⟨next, hnext, hy⟩ := hy.inv hround
        · exact .inl (.inr hy)
        · cases hnext
          exact .inr hy

end Laws

/-! ## All attempts -/

/-- The state between two attempts, or before the first. -/
def Pending (s : NewtonSettings α) (system : NonlinearSystem α) (budget : Nat) (d₀ : Draws ρ)
    (restarts : Nat) (d : Draws ρ) : Prop :=
  restarts = 0 ∧ d = d₀ ∨ ∃ k x d₁ best, restarts = k + 1 ∧
    AttemptStarts s system budget d₀ k x d₁ ∧
    attemptFrom s system budget x d₁ = .ok (.failed best) d

theorem start_inv {d₀ d d₁ : Draws ρ} {restarts : Nat} {x : List α}
    (h : Pending s system budget d₀ restarts d) (hs : startOf s system restarts d = .ok x d₁) :
    AttemptStarts s system budget d₀ restarts x d₁ := by
  rcases h with ⟨rfl, rfl⟩ | ⟨k, z, d₂, best, rfl, hk, hfailed⟩
  · cases hs
    exact .first
  · cases hs
    exact .again hk hfailed

/-- A solution is what the attempt after its restarts has returned. -/
theorem attempts_inv {d₀ d d' : Draws ρ} {left restarts : Nat} {best : Option α}
    {solution : NewtonSolution α} (h : Pending s system budget d₀ restarts d)
    (ha : attempts s system budget left restarts best d = .ok solution d') :
    solution.restarts < restarts + left ∧ ∃ x d₁,
      AttemptStarts s system budget d₀ solution.restarts x d₁ ∧
      attemptFrom s system budget x d₁ =
        .ok (.converged solution.x solution.residual solution.iterations) d' := by
  induction left generalizing restarts best d with
  | zero => cases ha
  | succ left ih =>
    rw [attempts_succ] at ha
    obtain ⟨x, d₁, hstart, ha⟩ := run_bind_eq_ok.1 ha
    have hx := start_inv h hstart
    obtain ⟨a, d₂, hattempt, ha⟩ := run_bind_eq_ok.1 ha
    cases a with
    | converged z r n =>
      cases ha
      exact ⟨Nat.lt_add_of_pos_right (Nat.succ_pos left), x, d₁, hx, hattempt⟩
    | failed b =>
      obtain ⟨hlt, hrest⟩ := ih (.inr ⟨restarts, x, d₁, b, rfl, hx, hattempt⟩) ha
      exact ⟨by omega, hrest⟩

/-! ## Errors -/

section Errors
open Outcome

theorem unfailing_clampStep (longest step : α) : Unfailing (clampStep longest step) := by
  unfold clampStep
  split
  · exact unfailing_ok _
  · exact unfailing_misuse _

theorem unfailing_trialAt (hsys : system.Infallible) (x dx : List α) (alpha : α) :
    Unfailing (trialAt system x dx alpha) :=
  (hsys.residual _).bind fun _ => unfailing_ok _

theorem unfailing_lineSearch (hsys : system.Infallible) (x dx : List α) (error : α) (budget : Nat)
    (t : Trial α) : Unfailing (lineSearch s system x dx error budget t) := by
  unfold lineSearch
  induction budget generalizing t with
  | zero =>
    by_cases hgo : ¬ t.residual < error ∧ s.minAlpha < t.alpha
    · rw [lineSearchM_zero hgo]
      nofun
    · rw [lineSearchM_stay hgo]
      exact unfailing_ok _
  | succ budget ih =>
    by_cases hgo : ¬ t.residual < error ∧ s.minAlpha < t.alpha
    · rw [lineSearchM_succ hgo]
      exact (unfailing_trialAt hsys _ _ _).bind fun t => ih t
    · rw [lineSearchM_stay hgo]
      exact unfailing_ok _

/-- Slopes that determine no step are no error, but end the attempt. -/
theorem unfailing_newtonStep? (hsys : system.Infallible) (x f : List α) :
    Unfailing (newtonStep? s system x f) := by
  unfold newtonStep?
  refine (hsys.jacobian x).bind fun jacobian => ?_
  split
  · exact (unfailing_mapM (fun _ => unfailing_clampStep _ _) _).bind fun _ => unfailing_ok _
  · exact unfailing_ok _
  · rename_i h hne _
    intro g hg
    cases hg
    exact hne _ rfl

theorem round_ne_failed (hsys : system.Infallible) {it : Iterate α} {d d' : Draws ρ}
    {g : Failure α} : round s system budget it d ≠ .error (.failed g) d' := by
  intro h
  unfold round roundM at h
  rcases run_bind_eq_error.1 h with h | ⟨f, d₁, -, h⟩
  · exact ofOutcome_ne_failed (hsys.residual _) h
  split at h
  · cases h
  split at h
  · cases h
  rcases run_bind_eq_error.1 h with h | ⟨step, d₂, -, h⟩
  · exact ofOutcome_ne_failed (unfailing_newtonStep? hsys _ _) h
  cases step with
  | none => cases h
  | some dx =>
    simp only at h
    rcases run_bind_eq_error.1 h with h | ⟨first, d₃, -, h⟩
    · exact ofOutcome_ne_failed (unfailing_trialAt hsys _ _ _) h
    rcases run_bind_eq_error.1 h with h | ⟨trial, d₄, -, h⟩
    · exact ofOutcome_ne_failed (unfailing_lineSearch hsys _ _ _ _ _) h
    split at h
    · cases h
    · rcases run_bind_eq_error.1 h with h | ⟨x, d₅, -, h⟩ <;> cases h

theorem attempt_ne_failed (hsys : system.Infallible) {rounds : Nat} {it : Iterate α}
    {d d' : Draws ρ} {g : Failure α} :
    attempt s system budget rounds it d ≠ .error (.failed g) d' := by
  induction rounds generalizing it d with
  | zero => intro h; cases h
  | succ rounds ih =>
    intro h
    rw [attempt_succ] at h
    rcases run_bind_eq_error.1 h with h | ⟨p, d₁, -, h⟩
    · exact round_ne_failed hsys h
    · cases p with
      | converged x r => cases h
      | stuck best => cases h
      | moved next => exact ih h

/-- The one error of the solver says that no attempt has converged. -/
theorem attempts_failed (hsys : system.Infallible) {left restarts : Nat} {best : Option α}
    {d d' : Draws ρ} {g : Failure α}
    (h : attempts s system budget left restarts best d = .error (.failed g) d') :
    ∃ best, g = .noConvergence s.maxRestarts best := by
  induction left generalizing restarts best d with
  | zero =>
    cases h
    exact ⟨best, rfl⟩
  | succ left ih =>
    rw [attempts_succ] at h
    rcases run_bind_eq_error.1 h with h | ⟨x, d₁, -, h⟩
    · unfold startOf startM at h
      split at h <;> cases h
    rcases run_bind_eq_error.1 h with h | ⟨a, d₂, -, h⟩
    · exact absurd h (attempt_ne_failed hsys)
    cases a with
    | converged z r n => cases h
    | failed b => exact ih h

end Errors

theorem solve_accepted [OrderedScalar α] {d d' : Draws ρ} {solution : NewtonSolution α}
    (h : solve s system budget d = .ok solution d') :
    solution.restarts < s.maxRestarts ∧ ∃ x d₁,
      AttemptStarts s system budget d solution.restarts x d₁ ∧
      attemptFrom s system budget x d₁ =
        .ok (.converged solution.x solution.residual solution.iterations) d' ∧
      Accepted s system (RoundStarts s system budget s.maxIterations ⟨x, s.initialAlpha, none⟩ d₁)
        solution.x solution.residual solution.iterations := by
  obtain ⟨hlt, x, d₁, hstarts, hattempt⟩ := attempts_inv (.inl ⟨rfl, rfl⟩) h
  have hacc := attempt_accepted tracks_none (Nat.le_refl _) hattempt
  exact ⟨by omega, x, d₁, hstarts, hattempt, hacc.mono fun _ => .inr⟩

/-- A solution comes with its own residual, below the tolerance or, at the end of an attempt, below
ten times the tolerance; no iterate at which a round of its attempt began has a smaller residual.
The one error is that no attempt has converged. -/
theorem solve_contract [OrderedScalar α] (s : NewtonSettings α) {system : NonlinearSystem α}
    (hsys : system.Infallible) (budget : Nat) (d d' : Draws ρ) :
    (∀ solution, solve s system budget d = .ok solution d' →
      residualNorm system solution.x = .ok solution.residual ∧
      solution.residual < s.tolerance * 10.0 ∧
      (solution.iterations < s.maxIterations → solution.residual < s.tolerance) ∧
      solution.iterations ≤ s.maxIterations ∧
      solution.restarts < s.maxRestarts ∧
      ∃ x d₁, AttemptStarts s system budget d solution.restarts x d₁ ∧
        attemptFrom s system budget x d₁ =
          .ok (.converged solution.x solution.residual solution.iterations) d' ∧
        ∀ y e, RoundStarts s system budget s.maxIterations ⟨x, s.initialAlpha, none⟩ d₁ y →
          residualNorm system y = .ok e → Scalar.isNaN e = false → solution.residual ≤ e) ∧
    ∀ f, solve s system budget d = .error (.failed f) d' →
      ∃ best, f = .noConvergence s.maxRestarts best := by
  refine ⟨fun solution h => ?_, fun f h => attempts_failed hsys h⟩
  obtain ⟨hrestarts, x, d₁, hstarts, hattempt, hacc⟩ := solve_accepted h
  exact ⟨hacc.residual, hacc.near, hacc.met, hacc.iterations_le, hrestarts, x, d₁, hstarts,
    hattempt, hacc.least⟩

/-- The square of the unknown is four. -/
def parabola : NonlinearSystem ℚ :=
  PolynomialSystem.toSystem [[⟨1, [2]⟩, ⟨-4, [0]⟩]] (fun _ => .voltage) [1]

/-- So few rounds that the one attempt ends with a near miss. -/
def fewRounds : NewtonSettings ℚ :=
  { NewtonSettings.standard with maxIterations := 4, maxRestarts := 1, maxVoltageStep := 4 }

theorem solve_contract_parabola :
    ∃ solution d', solve fewRounds parabola 0 (⟨⟨[]⟩, 0⟩ : Draws (Script ℚ)) = .ok solution d' ∧
      solution.x = [3281 / 1640] ∧ residualNorm parabola [3281 / 1640] = .ok solution.residual ∧
      solution.residual < fewRounds.tolerance * 10.0 ∧
      ¬ solution.residual < fewRounds.tolerance ∧
      solution.iterations ≤ 4 ∧ solution.restarts < 1 := by
  have hfound : (match solve fewRounds parabola 0 (⟨⟨[]⟩, 0⟩ : Draws (Script ℚ)) with
      | .ok solution _ => some (solution.x, decide (solution.residual < fewRounds.tolerance))
      | .error _ _ => none) = some ([3281 / 1640], false) := by decide +kernel
  split at hfound
  · rename_i solution d' h
    obtain ⟨hx, hmiss⟩ := Prod.mk.inj (Option.some.inj hfound)
    have hsys : parabola.Infallible := PolynomialSystem.infallible_toSystem _ _ _
    obtain ⟨hres, hnear, -, hiterations, hrestarts, -⟩ :=
      (solve_contract fewRounds hsys 0 _ _).1 solution h
    rw [hx] at hres
    exact ⟨solution, d', h, hx, hres, hnear, of_decide_eq_false hmiss, hiterations, hrestarts⟩
  · cases hfound

end Newton

end Nodal
