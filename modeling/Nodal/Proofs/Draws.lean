import Nodal.Proofs.NewtonRuns
import Nodal.Proofs.Outcomes

/-! # Where numbers are drawn

Whether a solve draws a number is decided by the system and the settings alone. Either it comes to
its end without a draw, and then it is the same whatever the numbers are; or it comes to a first
place at which it perturbs an iterate (`DrawPoint`), the same place whatever the numbers are, and
goes on from there (`DrawPoint.resume`). From there on at least one number is drawn. -/

namespace Nodal

namespace Drawing
variable {α ρ β γ κ : Type} {m : Drawing α ρ β} {P : κ → Prop} {resume : κ → Drawing α ρ β}

/-- Nothing is drawn, and it makes no difference what would be. -/
def Quiet (m : Drawing α ρ β) : Prop := ∃ o, m = ofOutcome o

theorem quiet_pure (b : β) : Quiet (pure b : Drawing α ρ β) := ⟨.ok b, rfl⟩

theorem quiet_throw (h : Halt α) : Quiet (throw h : Drawing α ρ β) := ⟨.error h, rfl⟩

/-- Nothing is drawn, or the computation is what goes on from one of the places. -/
def ComesTo (P : κ → Prop) (resume : κ → Drawing α ρ β) (m : Drawing α ρ β) : Prop :=
  Quiet m ∨ ∃ p, P p ∧ m = resume p

theorem ComesTo.pure (b : β) : ComesTo P resume (pure b) := .inl (quiet_pure b)

theorem ComesTo.bind_outcome (o : Outcome α γ) {f : γ → Drawing α ρ β}
    (hf : ∀ c, ComesTo P resume (f c)) : ComesTo P resume (ofOutcome o >>= f) := by
  cases o with
  | ok c => exact hf c
  | error h => exact .inl (quiet_throw h)

/-- No draw is taken back. -/
def Counts (m : Drawing α ρ β) : Prop := ∀ d, d.count ≤ (after (m d)).count

theorem counts_pure (b : β) : Counts (pure b : Drawing α ρ β) := fun _ => Nat.le_refl _

theorem counts_throw (h : Halt α) : Counts (throw h : Drawing α ρ β) := fun _ => Nat.le_refl _

theorem counts_ofOutcome (o : Outcome α β) : Counts (ofOutcome o : Drawing α ρ β) := by
  cases o with
  | ok b => exact counts_pure b
  | error h => exact counts_throw h

theorem Counts.bind (hm : Counts m) {f : β → Drawing α ρ γ} (hf : ∀ b, Counts (f b)) :
    Counts (m >>= f) := by
  intro d
  have hd := hm d
  simp only [Bind.bind, EStateM.bind]
  cases h : m d with
  | ok b d₁ =>
    rw [h] at hd
    exact Nat.le_trans hd (hf b d₁)
  | error e d₁ =>
    rw [h] at hd
    exact hd

end Drawing

namespace Newton
open Drawing
variable {α ρ : Type} [Scalar α] [RandomSource ρ α]
  (s : NewtonSettings α) (system : NonlinearSystem α) (budget : Nat)

/-- What follows an attempt, when some attempts are left. -/
def proceed (left restarts : Nat) (best : Option α) : Attempt α → Drawing α ρ (NewtonSolution α)
  | .converged x residual iterations => return { x, residual, iterations, restarts }
  | .failed residual => attempts s system budget left (restarts + 1) (bestOf best residual)

theorem attempts_eq (left restarts : Nat) (best : Option α) :
    (attempts s system budget (left + 1) restarts best : Drawing α ρ (NewtonSolution α)) = (do
      let start ← startOf s system restarts
      let result ← attemptFrom s system budget start
      proceed s system budget left restarts best result) :=
  attempts_succ left restarts best

/-! ## Counting -/

theorem perturbed_nil :
    (perturbed s [] : Drawing α ρ (List α)) = pure [] := rfl

/-- A number is drawn for each entry. -/
theorem count_perturb (x : List α) (d : Draws ρ) :
    (perturb s x d).2.count = d.count + x.length := by
  induction x generalizing d with
  | nil => rfl
  | cons v x ih =>
    show (perturb s x ⟨_, d.count + 1⟩).2.count = d.count + (x.length + 1)
    rw [ih]
    show d.count + 1 + x.length = d.count + (x.length + 1)
    omega

theorem counts_perturbed (x : List α) : Counts (perturbed s x : Drawing α ρ (List α)) := by
  intro d
  show d.count ≤ (perturb s x d).2.count
  rw [count_perturb]
  omega

theorem counts_round (it : Iterate α) :
    Counts (round s system budget it : Drawing α ρ (Progress α)) := by
  unfold round roundM
  refine (counts_ofOutcome _).bind fun f => ?_
  dsimp only
  split
  · exact counts_pure _
  split
  · exact counts_pure _
  refine (counts_ofOutcome _).bind fun step => ?_
  cases step with
  | none => exact counts_pure _
  | some dx =>
    refine (counts_ofOutcome _).bind fun first => (counts_ofOutcome _).bind fun trial => ?_
    split
    · exact counts_pure _
    · exact (counts_perturbed s it.x).bind fun x => counts_pure _

theorem counts_attempt (rounds : Nat) (it : Iterate α) :
    Counts (attempt s system budget rounds it : Drawing α ρ (Attempt α)) := by
  induction rounds generalizing it with
  | zero => exact counts_pure _
  | succ rounds ih =>
    refine (counts_round s system budget it).bind fun progress => ?_
    cases progress with
    | converged x residual => exact counts_pure _
    | stuck best => exact counts_pure _
    | moved next => exact ih next

theorem counts_attempts (left restarts : Nat) (best : Option α) :
    Counts (attempts s system budget left restarts best : Drawing α ρ (NewtonSolution α)) := by
  induction left generalizing restarts best with
  | zero => exact counts_throw _
  | succ left ih =>
    rw [attempts_eq]
    have hstart : Counts (startOf s system restarts : Drawing α ρ (List α)) := by
      unfold startOf startM
      split
      · exact counts_pure _
      · exact counts_perturbed s _
    refine hstart.bind fun start => (counts_attempt s system budget _ _).bind fun result => ?_
    cases result with
    | converged x residual iterations => exact counts_pure _
    | failed residual => exact ih _ _

/-! ## The first draw -/

/-- A round that draws perturbs the iterate that it began at, and this is the last thing it does. -/
theorem round_comesTo (it : Iterate α) :
    ComesTo (fun _ => it.x ≠ [])
      (fun best => do return .moved ⟨← perturbed s it.x, s.initialAlpha, best⟩)
      (round s system budget it : Drawing α ρ (Progress α)) := by
  unfold round roundM
  refine .bind_outcome _ fun f => ?_
  dsimp only
  split
  · exact .pure _
  split
  · exact .pure _
  refine .bind_outcome _ fun step => ?_
  cases step with
  | none => exact .pure _
  | some dx =>
    refine .bind_outcome _ fun first => .bind_outcome _ fun trial => ?_
    split
    · exact .pure _
    · by_cases hx : it.x = []
      · rw [hx, perturbed_nil]
        exact .pure _
      · exact .inr ⟨_, hx, rfl⟩

/-- A place in an attempt at which an iterate is perturbed: the iterate, the rounds that are left,
and the best iterate so far. -/
abbrev RoundPoint (α : Type) := List α × Nat × Option (α × List α)

/-- Goes on with an attempt from a perturbed iterate. -/
def RoundPoint.attempt (p : RoundPoint α) (x : List α) : Drawing α ρ (Attempt α) :=
  Newton.attempt s system budget p.2.1 ⟨x, s.initialAlpha, p.2.2⟩

theorem attempt_comesTo (rounds : Nat) (it : Iterate α) :
    ComesTo (fun p : RoundPoint α => p.1 ≠ [])
      (fun p => do p.attempt s system budget (← perturbed s p.1))
      (attempt s system budget rounds it : Drawing α ρ (Attempt α)) := by
  induction rounds generalizing it with
  | zero => exact .pure _
  | succ rounds ih =>
    rw [attempt_succ]
    rcases round_comesTo (ρ := ρ) s system budget it with ⟨o, hround⟩ | ⟨best, hx, hround⟩
    · rw [hround]
      refine .bind_outcome _ fun progress => ?_
      cases progress with
      | converged x residual => exact .pure _
      | stuck best => exact .pure _
      | moved next => exact ih next
    · right
      refine ⟨(it.x, rounds, best), hx, ?_⟩
      rw [hround]
      simp only [bind_assoc, pure_bind]
      rfl

/-- A place in a solve at which an iterate is perturbed. -/
structure DrawPoint (α : Type) where
  /-- The iterate. -/
  x : List α
  /-- Attempts that have failed. -/
  restarts : Nat
  /-- Attempts that are left after this one. -/
  left : Nat
  /-- The smallest residual of the failed attempts. -/
  best : Option α
  /-- Rounds that are left in the attempt, with its best iterate; none at its start. -/
  within : Option (Nat × Option (α × List α))

/-- Goes on with the attempt from the perturbed iterate. -/
def DrawPoint.attempt (p : DrawPoint α) (x : List α) : Drawing α ρ (Attempt α) :=
  match p.within with
  | none => attemptFrom s system budget x
  | some (rounds, best) => Newton.attempt s system budget rounds ⟨x, s.initialAlpha, best⟩

/-- Goes on with a solve by perturbing the iterate. -/
def DrawPoint.resume (p : DrawPoint α) : Drawing α ρ (NewtonSolution α) := do
  let x ← perturbed s p.x
  let result ← p.attempt s system budget x
  proceed s system budget p.left p.restarts p.best result

theorem attempts_comesTo (left restarts : Nat) (best : Option α) :
    ComesTo (fun p : DrawPoint α => p.x ≠ []) (DrawPoint.resume s system budget)
      (attempts s system budget left restarts best : Drawing α ρ (NewtonSolution α)) := by
  induction left generalizing restarts best with
  | zero => exact .inl (quiet_throw _)
  | succ left ih =>
    -- an attempt that has begun without a draw
    have hbegun : ∀ start, ComesTo (fun p : DrawPoint α => p.x ≠ [])
        (DrawPoint.resume s system budget) (do
          let result ← attemptFrom s system budget start
          proceed s system budget left restarts best result :
          Drawing α ρ (NewtonSolution α)) := by
      intro start
      rcases attempt_comesTo (ρ := ρ) s system budget s.maxIterations
        ⟨start, s.initialAlpha, none⟩ with ⟨o, hattempt⟩ | ⟨⟨x, rounds, tracked⟩, hx, hattempt⟩
      · rw [attemptFrom, hattempt]
        refine .bind_outcome _ fun result => ?_
        cases result with
        | converged x residual iterations => exact .pure _
        | failed residual => exact ih (restarts + 1) (bestOf best residual)
      · right
        refine ⟨⟨x, restarts, left, best, some (rounds, tracked)⟩, hx, ?_⟩
        rw [attemptFrom, hattempt, bind_assoc]
        rfl
    rw [attempts_eq, startOf, startM]
    split
    · exact hbegun system.guess
    · by_cases hguess : system.guess = []
      · rw [hguess, perturbed_nil]
        exact hbegun []
      · exact .inr ⟨⟨system.guess, restarts, left, best, none⟩, hguess, rfl⟩

/-- A solve draws nothing, or it comes to the same place without a draw, whatever the numbers are,
and draws there. -/
theorem solve_comesTo :
    ComesTo (fun p : DrawPoint α => p.x ≠ []) (DrawPoint.resume s system budget)
      (solve s system budget : Drawing α ρ (NewtonSolution α)) :=
  attempts_comesTo s system budget s.maxRestarts 0 none

theorem DrawPoint.lt_count_resume {p : DrawPoint α} (hx : p.x ≠ []) (d : Draws ρ) :
    d.count < (after (p.resume s system budget d)).count := by
  have hrest : ∀ x, Counts (do
      let result ← p.attempt s system budget x
      proceed s system budget p.left p.restarts p.best result :
      Drawing α ρ (NewtonSolution α)) := by
    intro x
    have hattempt : Counts (p.attempt s system budget x : Drawing α ρ (Attempt α)) := by
      unfold DrawPoint.attempt
      split
      · exact counts_attempt s system budget _ _
      · exact counts_attempt s system budget _ _
    refine hattempt.bind fun result => ?_
    cases result with
    | converged x residual iterations => exact counts_pure _
    | failed residual => exact counts_attempts s system budget _ _ _
  have hpositive := List.length_pos_iff.2 hx
  have hcount := count_perturb s p.x d
  have hle := hrest (perturb s p.x d).1 (perturb s p.x d).2
  refine Nat.lt_of_lt_of_le ?_ hle
  omega

end Newton

end Nodal
