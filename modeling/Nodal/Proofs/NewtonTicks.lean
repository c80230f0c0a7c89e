import Nodal.Proofs.NewtonRuns
import Nodal.Proofs.Residual
import Nodal.Proofs.Runs

/-! # Ticks of nonlinear circuits

What the Newton solver makes small is the imbalance of the state that the tick stores: a successful
tick of a nonlinear circuit leaves an imbalance below the near-miss limit. -/

namespace Nodal

theorem Equation.solveWith_inv {α ρ : Type} [Scalar α] [RandomSource ρ α] {e : Equation α}
    {elements : List (Component α)} {budget : Nat} {newton newton' : NewtonSolver α ρ} {x : List α}
    (hne : elements ≠ []) (h : e.solveWith elements budget newton = .ok x newton') :
    newton'.settings = newton.settings ∧ ∃ solution : NewtonSolution α, solution.x = x ∧
      Newton.solve newton.settings (e.toSystem elements leakage) budget newton.draws =
        .ok solution newton'.draws := by
  unfold Equation.solveWith NewtonSolver.solve at h
  rw [if_neg (by simpa using hne)] at h
  cases hsolve : Newton.solve newton.settings (e.toSystem elements leakage) budget newton.draws with
  | ok solution draws =>
    rw [hsolve] at h
    cases h
    exact ⟨rfl, solution, rfl, rfl⟩
  | error f draws =>
    rw [hsolve] at h
    cases h

variable {α : Type} [ExactScalar α]

namespace Circuit
variable {l : Layout} {c : Circuit α} {timestep time : α} {previous : CircuitState α}
  {companions : Companions α} {e : Equation α}

omit [ExactScalar α] in
theorem nonlinear_ne_nil (h : c.hasNonlinear = true) : c.nonlinear ≠ [] := by
  intro hnil
  obtain ⟨d, hd, hnl⟩ := List.any_eq_true.1 h
  have hmem : d ∈ c.nonlinear := List.mem_filter.2 ⟨hd, hnl⟩
  rw [hnil] at hmem
  cases hmem

theorem norm_imbalance (h : Stamped l c timestep time previous companions e) {gmin r : α}
    {x : List α}
    (hr : Newton.residualNorm (e.toSystem c.nonlinear gmin) x = .ok r) :
    Scalar.norm (c.imbalance gmin time (0 :: x) (c.statesOf timestep previous x)) = r := by
  obtain ⟨f, hf, hnorm⟩ := Outcome.bind_eq_ok.1 hr
  have hx := Equation.length_of_residual h.equation hf
  have hf' := residual_eq_imbalance h gmin hx
  cases hf.symm.trans hf'
  exact Except.ok.inj hnorm

end Circuit

namespace Simulator

theorem imbalance_of_tick {c : Circuit α} {e₀ : Equation α} {budget : Nat} {s s' : Simulator α}
    (hc : c.Numbered) (hs : c.staticEquation = .ok e₀) (hnl : c.hasNonlinear = true)
    (hholds : Holds c e₀ s) (ht : tick budget s = .ok () s') :
    Scalar.norm (s'.circuit.imbalance leakage s'.time s'.solution s'.state) <
      s'.newton.settings.tolerance * 10.0 := by
  obtain ⟨e₁, companions, e, x, state, newton, he, hstamp, hsolve, hstate, rfl⟩ := tick_inv ht
  obtain ⟨rfl, heq⟩ := hholds
  cases heq.symm.trans he
  obtain ⟨l, h⟩ := Circuit.stamped_of_stampTick hc hs hstamp
  rw [h.deriveState_eq] at hstate
  cases hstate
  obtain ⟨hsettings, solution, rfl, hfound⟩ :=
    Equation.solveWith_inv (Circuit.nonlinear_ne_nil hnl) hsolve
  obtain ⟨-, y, d, -, -, hacc⟩ := Newton.solve_accepted hfound
  show Scalar.norm
      (s.circuit.imbalance leakage (s.time + s.settings.timestep) (0 :: solution.x) _) <
    newton.settings.tolerance * 10.0
  rw [Circuit.norm_imbalance h hacc.residual, hsettings]
  exact hacc.near

/-- The same bound holds of what an advance leaves behind when it has taken ticks and none has
failed. -/
theorem imbalance_of_advance {c : Circuit α} {e₀ : Equation α} {budget n : Nat} {milliseconds : α}
    {s s' : Simulator α} (hc : c.Numbered) (hs : c.staticEquation = .ok e₀)
    (hnl : c.hasNonlinear = true) (hholds : Holds c e₀ s)
    (h : advance budget milliseconds s = .ok n s') (hn : 0 < n) (herr : s'.lastError = none) :
    Scalar.norm (s'.circuit.imbalance leakage s'.time s'.solution s'.state) <
      s'.newton.settings.tolerance * 10.0 := by
  obtain ⟨s₀, s₁, hs₀, ht, rfl⟩ := hholds.of_advance h hn herr
  show Scalar.norm (s₁.circuit.imbalance leakage s₁.time s₁.solution s₁.state) <
    s₁.newton.settings.tolerance * 10.0
  exact imbalance_of_tick hc hs hnl hs₀ ht

/-- The residual that the solver sees at any trial solution is the imbalance of the state derived
from that solution, row by row. So right after every successful tick since a nonlinear circuit has
been loaded, the stored state has an imbalance below ten times the tolerance. -/
theorem residual_is_imbalance :
    (∀ (c : Circuit α) (e₀ e : Equation α) (timestep time : α) (previous : CircuitState α)
      (companions : Circuit.Companions α), c.Built → c.staticEquation = .ok e₀ →
      c.stampTick timestep time previous e₀ = .ok companions e →
      (∀ (k : Nat) (d : Component α), c.sources[k]? = some d → d.device.branch? = some ⟨k⟩) ∧
      ∀ (gmin : α) (x : List α), x.length = e.size →
        ∃ state, c.deriveState (0 :: x) companions = .ok state ∧
          (∀ d ∈ c.components, ∃ shown, state.get? d.id = some shown) ∧
          e.residual c.nonlinear gmin x = .ok (c.imbalance gmin time (0 :: x) state)) ∧
    ∀ (budget : Nat) (load : Call α) (calls : List (Call α)) (s₀ s₁ s : Simulator α)
      (r : Option Nat), load.isLoad → (∀ c, load = .loadCircuit c → c.Built) →
      perform budget load s₀ = .ok r s₁ → s₁.lastError = none → s₁.circuit.hasNonlinear = true →
      (∀ call ∈ calls, call.isLoad = false) → TickIn budget calls s₁ s →
      Scalar.norm (s.circuit.imbalance leakage s.time s.solution s.state) <
        s.newton.settings.tolerance * 10.0 := by
  constructor
  · rintro c e₀ e timestep time previous companions ⟨cs, hc⟩ hs ht
    have hnum := Circuit.numbered_of_ofComponents hc
    obtain ⟨l, h⟩ := Circuit.stamped_of_stampTick hnum hs ht
    refine ⟨fun k d hd => hnum.branch?_source hd, fun gmin x hx => ?_⟩
    have hlen : l.numNodes - 1 ≤ x.length := by
      rw [hx, Equation.size, h.equation.length_eq]
      exact Nat.le_add_right ..
    refine ⟨_, h.deriveState_eq x, fun d hd => ⟨_, h.get?_state x hd⟩, ?_⟩
    exact Circuit.residual_eq_imbalance h gmin hlen
  · intro budget load calls s₀ s₁ s r hload hbuilt hloaded herr hnl hcalls htick
    obtain ⟨c, e, ⟨cs, hc⟩, he, hholds⟩ := Holds.of_load hload hbuilt hloaded herr
    obtain ⟨s₂, hs₂, ht⟩ := hholds.tickIn hcalls htick
    rw [hholds.circuit_eq] at hnl
    exact imbalance_of_tick (Circuit.numbered_of_ofComponents hc) he hnl hs₂ ht

/-- A diode that keeps a node behind a resistor low. -/
def clipping : List (Component ℚ) :=
  [⟨⟨0⟩, "V0", .voltageSource .ground ⟨1⟩ (.constant 1) none⟩,
    ⟨⟨1⟩, "R1", .resistor ⟨1⟩ ⟨2⟩ 1 .intact⟩,
    ⟨⟨2⟩, "D2", .diode ⟨2⟩ .ground ⟨1, 1000⟩⟩]

/-- The simulator with this circuit, before its first tick. -/
def beforeClipping : Simulator ℚ := after (perform 4 (.loadComponents clipping) .initial)

theorem residual_is_imbalance_clipping :
    (∃ c e₀ e companions state, Circuit.ofComponents clipping = .ok c ∧
      c.staticEquation = .ok e₀ ∧ c.stampTick 1 1 [] e₀ = .ok companions e ∧
      c.deriveState [0, 5, 3, 7] companions = .ok state ∧
      e.residual c.nonlinear 2 [5, 3, 7] = .ok (c.imbalance 2 1 [0, 5, 3, 7] state)) ∧
    ∃ s, TickIn 4 [.start, .advance 10] beforeClipping s ∧
      Scalar.norm (s.circuit.imbalance leakage s.time s.solution s.state) <
        s.newton.settings.tolerance * 10.0 := by
  constructor
  · have hstamped : (match Circuit.ofComponents clipping with
        | .ok c => match c.staticEquation with
          | .ok e₀ => match c.stampTick 1 1 [] e₀ with
            | .ok _ e => e.size == 3
            | .error _ _ => false
          | .error _ => false
        | .error _ => false) = true := by decide +kernel
    split at hstamped
    case h_2 => cases hstamped
    rename_i c hc
    split at hstamped
    case h_2 => cases hstamped
    rename_i e₀ he₀
    split at hstamped
    case h_2 => cases hstamped
    rename_i companions e he
    obtain ⟨-, hresidual⟩ := residual_is_imbalance.1 c e₀ e 1 1 [] companions ⟨_, hc⟩ he₀ he
    obtain ⟨state, hstate, -, h⟩ := hresidual 2 [5, 3, 7] (beq_iff_eq.1 hstamped).symm
    exact ⟨c, e₀, e, companions, state, hc, he₀, he, hstate, h⟩
  · obtain ⟨r, hloaded⟩ := exists_of_succeeds
      (r := perform 4 (.loadComponents clipping) (.initial : Simulator ℚ)) (by decide +kernel)
    let s₁ := (after (perform 4 .start beforeClipping)).receive 10
    obtain ⟨⟨⟩, htick⟩ := exists_of_succeeds (r := tick 4 s₁) (by decide +kernel)
    have hrun : TickIn 4 [.start, .advance 10] beforeClipping (after (tick 4 s₁)) :=
      .later (.now (by decide +kernel) (by decide +kernel) (.done s₁) (by decide +kernel) htick)
    have herr : beforeClipping.lastError = none := Option.isNone_iff_eq_none.1 (by decide +kernel)
    exact ⟨_, hrun, residual_is_imbalance.2 4 (.loadComponents clipping) _ _ _ _ r (by decide)
      (by rintro c ⟨⟩) hloaded herr (by decide +kernel) (by decide) hrun⟩

end Simulator

end Nodal
