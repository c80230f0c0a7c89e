import Nodal.Proofs.NewtonRuns
import Nodal.Proofs.Reachable

/-! # Budgets

A budget bounds the rounds of a line search. What comes to an end with some budget ends in the same
way with any larger one (`Extends`), so ticks depend on the simulator alone. -/

namespace Nodal

/-- `m'` ends as `m` does, unless `m` runs out of its budget. -/
def Extends {α σ β : Type} (m m' : EStateM (Halt α) σ β) : Prop :=
  ∀ s, (∃ s', m s = .error .exhausted s') ∨ m' s = m s

namespace Extends
variable {α σ β γ ρ : Type} {m m' : EStateM (Halt α) σ β}

theorem refl (m : EStateM (Halt α) σ β) : Extends m m := fun _ => .inr rfl

theorem bind {f f' : β → EStateM (Halt α) σ γ} (hm : Extends m m')
    (hf : ∀ b, Extends (f b) (f' b)) : Extends (m >>= f) (m' >>= f') := by
  intro s
  simp only [Bind.bind, EStateM.bind]
  obtain ⟨s', h⟩ | h := hm s
  · exact .inl ⟨s', by rw [h]⟩
  · rw [h]
    cases m s with
    | ok b s₁ => exact hf b s₁
    | error halt s₁ => exact .inr rfl

theorem ofOutcome {o o' : Outcome α β} (h : o = .error .exhausted ∨ o' = o) :
    Extends (Drawing.ofOutcome o : Drawing α ρ β) (Drawing.ofOutcome o') := by
  obtain rfl | rfl := h
  · exact fun d => .inl ⟨d, rfl⟩
  · exact .refl _

/-- A result that needs no larger budget. -/
theorem eq_ok {s s' : σ} {b : β} (h : Extends m m') (hm : m s = .ok b s') : m' s = .ok b s' := by
  obtain ⟨s₁, h⟩ | h := h s
  · rw [hm] at h
    cases h
  · rw [h, hm]

theorem eq_failed {s s' : σ} {f : Failure α} (h : Extends m m') (hm : m s = .error (.failed f) s') :
    m' s = .error (.failed f) s' := by
  obtain ⟨s₁, h⟩ | h := h s
  · rw [hm] at h
    cases h
  · rw [h, hm]

end Extends

variable {α ρ : Type} [Scalar α] {budget budget' : Nat}

namespace Newton
variable [RandomSource ρ α] (s : NewtonSettings α) (system : NonlinearSystem α)

omit [RandomSource ρ α] in
theorem lineSearch_extends (hle : budget ≤ budget') (x dx : List α) (error : α) (t : Trial α) :
    lineSearch s system x dx error budget t = .error .exhausted ∨
      lineSearch s system x dx error budget' t = lineSearch s system x dx error budget t := by
  unfold lineSearch
  induction budget generalizing budget' t with
  | zero =>
    by_cases hgo : ¬ t.residual < error ∧ s.minAlpha < t.alpha
    · exact .inl (lineSearchM_zero hgo)
    · exact .inr (by rw [lineSearchM_stay hgo, lineSearchM_stay hgo])
  | succ budget ih =>
    obtain ⟨budget', rfl⟩ := Nat.exists_eq_add_of_le' (Nat.one_le_of_lt hle)
    by_cases hgo : ¬ t.residual < error ∧ s.minAlpha < t.alpha
    · rw [lineSearchM_succ hgo, lineSearchM_succ hgo]
      cases trialAtM system.residual x dx (t.alpha * s.alphaShrink) with
      | error halt => exact .inr rfl
      | ok t₁ => exact ih (Nat.le_of_succ_le_succ hle) t₁
    · exact .inr (by rw [lineSearchM_stay hgo, lineSearchM_stay hgo])

theorem round_extends (hle : budget ≤ budget') (it : Iterate α) :
    Extends (round s system budget it : Drawing α ρ (Progress α)) (round s system budget' it) := by
  unfold round roundM
  refine (Extends.refl _).bind fun f => ?_
  simp only
  split
  · exact .refl _
  split
  · exact .refl _
  refine (Extends.refl _).bind fun step => ?_
  cases step with
  | none => exact .refl _
  | some dx =>
    refine (Extends.refl _).bind fun first => ?_
    exact (Extends.ofOutcome (lineSearch_extends s system hle _ _ _ first)).bind fun _ => .refl _

theorem attempt_extends (hle : budget ≤ budget') (rounds : Nat) (it : Iterate α) :
    Extends (attempt s system budget rounds it : Drawing α ρ (Attempt α))
      (attempt s system budget' rounds it) := by
  induction rounds generalizing it with
  | zero => exact .refl _
  | succ rounds ih =>
    rw [attempt_succ, attempt_succ]
    refine (round_extends s system hle it).bind fun p => ?_
    cases p with
    | converged x residual => exact .refl _
    | stuck best => exact .refl _
    | moved next => exact ih next

theorem attempts_extends (hle : budget ≤ budget') (left restarts : Nat) (best : Option α) :
    Extends (attempts s system budget left restarts best : Drawing α ρ (NewtonSolution α))
      (attempts s system budget' left restarts best) := by
  induction left generalizing restarts best with
  | zero => exact .refl _
  | succ left ih =>
    rw [attempts_succ, attempts_succ]
    refine (Extends.refl _).bind fun x => ?_
    refine (attempt_extends s system hle _ _).bind fun a => ?_
    cases a with
    | converged x residual iterations => exact .refl _
    | failed residual => exact ih _ _

theorem solve_extends (hle : budget ≤ budget') :
    Extends (solve s system budget : Drawing α ρ (NewtonSolution α)) (solve s system budget') :=
  attempts_extends s system hle s.maxRestarts 0 none

end Newton

theorem Equation.solveWith_extends [RandomSource ρ α] (hle : budget ≤ budget') (e : Equation α)
    (elements : List (Component α)) :
    Extends (e.solveWith elements budget : EStateM (Halt α) (NewtonSolver α ρ) (List α))
      (e.solveWith elements budget') := by
  intro newton
  unfold solveWith NewtonSolver.solve
  split
  · exact .inr rfl
  · obtain ⟨draws, h⟩ | h := Newton.solve_extends newton.settings
      (e.toSystem elements leakage) hle newton.draws
    · exact .inl ⟨{ newton with draws }, by simp only [h]⟩
    · exact .inr (by simp only [h])

namespace Simulator

theorem tick_extends (hle : budget ≤ budget') : Extends (tick budget) (tick (α := α) budget') := by
  intro s
  unfold tick solveTick
  split
  · exact .inr rfl
  rename_i e he
  simp only
  cases s.circuit.stampTick s.settings.timestep (s.time + s.settings.timestep) s.state e with
  | error halt e' => exact .inr rfl
  | ok companions e' =>
    obtain ⟨newton, h⟩ | h := e'.solveWith_extends hle s.circuit.nonlinear s.newton
    · exact .inl ⟨{ s with newton }, by simp only [h]⟩
    · exact .inr (by simp only [h])

/-- Ticks that have been taken with some budget are taken with any larger one. -/
theorem Ticks.extend {threshold : α} {s s' : Simulator α} {log : List (Event α)}
    (hle : budget ≤ budget') (h : Ticks threshold budget s log s') :
    Ticks threshold budget' s log s' := by
  induction h with
  | done s => exact .done s
  | more hwait ht _ ih => exact .more hwait ((tick_extends hle).eq_ok ht) ih

end Simulator

end Nodal
