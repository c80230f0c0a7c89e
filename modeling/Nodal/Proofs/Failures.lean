import Nodal.Proofs.NewtonRuns
import Nodal.Proofs.Stored

/-! # How a tick can fail

The stamps of a tick never fail, since settings and static equation have been checked before. What
is left is the solver, which finds the system singular or does not converge. -/

namespace Nodal

/-! ## Solving -/

theorem Outcome.Unfailing.of_bind {α β γ : Type} {x : Outcome α β} {g : β → Outcome α γ}
    {f : Failure α} (hx : Unfailing x) (h : (x >>= g) = .error (.failed f)) :
    ∃ b, x = .ok b ∧ g b = .error (.failed f) := by
  cases x with
  | ok b => exact ⟨b, rfl, h⟩
  | error halt =>
    cases h
    exact absurd rfl (hx f)

section Solving
variable {α ρ : Type} [Scalar α] [RandomSource ρ α]
open Outcome

namespace Row
omit [RandomSource ρ α]

omit [Scalar α] in
theorem unfailing_exchange (first : Row α) (rest : List (Row α)) (j : Nat) :
    Unfailing (exchange first rest j) := by
  cases j with
  | zero => exact unfailing_ok _
  | succ j =>
    simp only [exchange]
    split
    · exact unfailing_misuse _
    · split
      · exact unfailing_ok _
      · exact unfailing_misuse _

theorem unfailing_reduce (p r : Row α) : Unfailing (reduce p r) := by
  unfold reduce
  simp only
  split
  · exact unfailing_ok _
  · split
    · exact unfailing_ok _
    · exact unfailing_misuse _

/-- Elimination fails when it finds no pivot. -/
theorem solve_failed {n : Nat} {rows : List (Row α)} {f : Failure α}
    (h : solve n rows = .error (.failed f)) : f = .singularMatrix := by
  induction n generalizing rows with
  | zero => cases h
  | succ n ih =>
    cases rows with
    | nil => cases h
    | cons first rest =>
      rw [solve] at h
      simp only at h
      split at h
      · obtain ⟨picked, -, h⟩ := (unfailing_exchange _ _ _).of_bind h
        obtain ⟨reduced, -, h⟩ := (unfailing_mapM (unfailing_reduce _) _).of_bind h
        cases hxs : solve n reduced with
        | error halt =>
          rw [hxs] at h
          cases h
          exact ih hxs
        | ok xs =>
          rw [hxs, ok_bind] at h
          split at h <;> cases h
      · cases h
        rfl

end Row

theorem Equation.solveWith_failed {e : Equation α} {elements : List (Component α)} {budget : Nat}
    {newton newton' : NewtonSolver α ρ} {f : Failure α}
    (h : e.solveWith elements budget newton = .error (.failed f) newton') : f.isSolverFailure := by
  unfold Equation.solveWith NewtonSolver.solve at h
  split at h
  · split at h
    · cases h
    · rename_i hsolve
      cases h
      rw [Row.solve_failed hsolve]
      rfl
  · cases hsolve : Newton.solve newton.settings (e.toSystem elements leakage) budget
      newton.draws with
    | ok solution draws =>
      rw [hsolve] at h
      cases h
    | error halt draws =>
      rw [hsolve] at h
      cases h
      obtain ⟨best, rfl⟩ := Newton.attempts_failed (e.infallible_toSystem elements leakage) hsolve
      rfl

end Solving

theorem Companion.unfailing_recover {α : Type} [Scalar α] (k : Companion α) (voltages : List α) :
    Outcome.Unfailing (k.recover voltages) := by
  unfold recover
  split
  · exact Outcome.unfailing_ok _
  · exact Outcome.unfailing_misuse _

theorem Circuit.unfailing_deriveState {α : Type} [Scalar α] (c : Circuit α) (solution : List α)
    (companions : Companions α) : Outcome.Unfailing (c.deriveState solution companions) := by
  refine Outcome.unfailing_mapM (fun d => ?_) c.components
  refine Outcome.Unfailing.bind ?_ fun _ => Outcome.unfailing_ok _
  unfold componentState
  simp only
  split
  · exact (Companion.unfailing_recover _ _).bind fun _ => Outcome.unfailing_ok _
  · exact Outcome.unfailing_ok _

/-! ## Settings -/

/-- The standard settings pass their own check. -/
class StandardValid (α : Type) [Scalar α] : Prop where
  validate : (SimulatorSettings.standard : SimulatorSettings α).validate = .ok ()

instance : StandardValid Float := ⟨rfl⟩

instance (priority := low) {α : Type} [ExactScalar α] : StandardValid α := ⟨by
  norm_num [SimulatorSettings.validate, SimulatorSettings.standard, NewtonSettings.validate,
    NewtonSettings.positives, NewtonSettings.standard, Scalar.isPositive]⟩

theorem SimulatorSettings.validate_ok {α : Type} [Scalar α] {s : SimulatorSettings α}
    (h : s.validate = .ok ()) :
    Scalar.isPositive s.timestep ∧ Scalar.isPositive s.rate ∧ s.newton.validate = .ok () := by
  unfold validate at h
  split at h
  · cases h
  rename_i ht
  split at h
  · cases h
  rename_i hr
  exact ⟨by simpa using ht, by simpa using hr, h⟩

namespace Simulator
variable {α : Type} [Scalar α] {s s' : Simulator α} {budget : Nat} {f : Failure α}

/-- The settings have been checked, and the solver works with them. -/
structure Configured (s : Simulator α) : Prop where
  valid : s.settings.validate = .ok ()
  newton_eq : s.newton.settings = s.settings.newton

namespace Configured

theorem of_eq (hs : s.Configured) (hsettings : s'.settings = s.settings)
    (hnewton : s'.newton.settings = s.newton.settings) : s'.Configured :=
  ⟨hsettings ▸ hs.valid, by rw [hnewton, hsettings, hs.newton_eq]⟩

theorem receive (hs : s.Configured) (milliseconds : α) : (s.receive milliseconds).Configured :=
  hs.of_eq rfl rfl

theorem tick (hs : s.Configured) (h : Simulator.tick budget s = .ok () s') : s'.Configured := by
  obtain ⟨e₀, companions, e, x, state, newton, -, -, hsolve, -, rfl⟩ := tick_inv h
  have hsettings := e.settings_solveWith s.circuit.nonlinear budget s.newton
  rw [hsolve] at hsettings
  exact hs.of_eq rfl hsettings

theorem ticks {threshold : α} {log : List (Event α)} (hs : s.Configured)
    (h : Ticks threshold budget s log s') : s'.Configured :=
  h.induction (fun _ hs => hs.of_eq rfl rfl) tick hs

theorem step {log : List (Event α)} (hs : s.Configured) (h : Step s log s') : s'.Configured := by
  cases h with
  | idle => exact hs
  | configured _ hv => exact ⟨hv, rfl⟩
  | switched => exact hs.of_eq rfl rfl
  | loaded => exact hs.of_eq rfl rfl
  | refused => exact hs.of_eq rfl rfl
  | waited => exact hs.of_eq rfl rfl
  | advanced _ _ _ hticks _ =>
    have h₁ := (hs.receive _).ticks hticks
    exact h₁.of_eq rfl rfl
  | failed _ _ hticks _ ht =>
    have h₁ := (hs.receive _).ticks hticks
    obtain ⟨newton, hnewton, rfl⟩ := tick_failed_inv ht
    exact h₁.of_eq rfl hnewton

end Configured

theorem Run.configured [StandardValid α] {log : List (Event α)} (h : Run log s) : s.Configured :=
  h.induction (P := fun _ s => s.Configured) ⟨StandardValid.validate, rfl⟩ Configured.step

theorem Run.consistent {log : List (Event α)} (h : Run log s) : s.Consistent :=
  h.induction (P := fun _ s => s.Consistent) ⟨Circuit.numbered_unloaded, rfl⟩ Consistent.step

/-! ## Ticks -/

theorem Ticks.isReady {threshold : α} {log : List (Event α)} (h : Ticks threshold budget s log s')
    (hs : s.isReady) : s'.isReady :=
  h.induction (P := fun s => s.isReady) (fun _ hs => hs) (fun hs ht => by
    obtain ⟨e₀, companions, e, x, state, newton, -, -, -, -, rfl⟩ := tick_inv ht
    exact hs) hs

theorem Ticks.ticked {threshold : α} {log : List (Event α)} (h : Ticks threshold budget s log s') :
    ∀ event ∈ log, ∃ before after, event = .ticked before after := by
  induction h with
  | done => exact List.forall_mem_nil _
  | @more s s₁ s' log _ _ _ ih => exact List.forall_mem_cons.2 ⟨⟨s, s₁, rfl⟩, ih⟩

/-- With checked settings and an equation of its own, a tick fails in the solver. -/
theorem Consistent.isSolverFailure (hs : s.Consistent) (hconf : s.Configured) (hready : s.isReady)
    (h : Simulator.tick budget s = .error (.failed f) s') : f.isSolverFailure := by
  obtain ⟨e₀, he₀⟩ := Option.isSome_iff_exists.1 hready
  obtain ⟨l, blank, hpart⟩ := Circuit.staticPart hs.numbered (hs.staticEquation_eq he₀)
  obtain ⟨ht, -, -⟩ := SimulatorSettings.validate_ok hconf.valid
  obtain ⟨e, hstamp, -⟩ := hpart.stampTick_ok ht (s.time + s.settings.timestep) s.state
  unfold Simulator.tick solveTick at h
  simp only [he₀, hstamp] at h
  cases hsolve : e.solveWith s.circuit.nonlinear budget s.newton with
  | error halt newton =>
    rw [hsolve] at h
    cases h
    exact Equation.solveWith_failed hsolve
  | ok x newton =>
    rw [hsolve] at h
    simp only at h
    split at h
    · cases h
    · rename_i halt newton' hstate
      cases h
      split at hstate
      · rename_i hderive
        cases hstate
        exact absurd hderive (Circuit.unfailing_deriveState _ _ _ f)
      · cases hstate

/-- A failure in the log of a step is one of the solver. -/
theorem Step.isSolverFailure {log : List (Event α)} (hs : s.Consistent) (hconf : s.Configured)
    (h : Step s log s') (hf : .failed f ∈ log) : f.isSolverFailure := by
  cases h with
  | loaded => cases List.mem_singleton.1 hf
  | refused => cases List.mem_singleton.1 hf
  | advanced _ _ _ hticks _ =>
    obtain ⟨before, after, heq⟩ := hticks.ticked _ hf
    cases heq
  | failed _ hready hticks _ ht =>
    rcases List.mem_append.1 hf with hf | hf
    · obtain ⟨before, after, heq⟩ := hticks.ticked _ hf
      cases heq
    · cases List.mem_singleton.1 hf
      have h₁ := (hs.receive _).ticks hticks
      have hconf₁ := (hconf.receive _).ticks hticks
      exact h₁.isSolverFailure hconf₁ (hticks.isReady hready) ht
  | _ => cases hf

/-- The error that a ready simulator keeps is the failure of a tick. -/
theorem Step.lastError {log log' : List (Event α)}
    (hs : s.isReady → ∀ f, s.lastError = some f → .failed f ∈ log) (h : Step s log' s') :
    s'.isReady → ∀ f, s'.lastError = some f → .failed f ∈ log ++ log' := by
  cases h with
  | loaded => exact fun _ f hf => nomatch hf
  | refused => exact fun hready => nomatch hready
  | advanced => exact fun _ f hf => nomatch hf
  | @failed s s₁ s₂ milliseconds budget log' f =>
    rintro - g hg
    obtain rfl := Option.some.inj hg
    exact List.mem_append_right _ (List.mem_append_right _ List.mem_cons_self)
  | _ => exact fun hready f hf => List.mem_append_left _ (hs hready f hf)

/-- The static equation of a circuit made of components is never refused for the rows of its
sources. Once it stands, every tick of a positive timestep can be stamped: all sources have been
claimed in the end, each branch by one stamp of one component, and the other components leave its
row, its column and its input alone. So what fails in a run is the solver, and the error that a
ready simulator keeps is such a failure. -/
theorem only_solver_fails [StandardValid α] :
    (∀ (cs : List (Component α)) (c : Circuit α), Circuit.ofComponents cs = .ok c →
      (∀ f, c.staticEquation = .error (.failed f) →
        (∀ declared, f ≠ .sourceOverflow declared) ∧
          ∀ name, f ≠ .topology (.unassignedBranch name)) ∧
      ∀ e₀, c.staticEquation = .ok e₀ → ∀ (timestep time : α) (previous : CircuitState α),
        Scalar.isPositive timestep →
        ∃ l blank companions e, c.Fits l ∧ Equation.blank c.numNodes c.numSources = .ok blank ∧
          c.stampTick timestep time previous e₀ = .ok companions e ∧
          Stamping.carryOut ((c.script timestep time previous).map Prod.snd) blank = .ok () e ∧
          e.numSources = c.numSources ∧ e.numStamped = e.numSources ∧
          ∀ k < e.numSources, ∃ d ∈ c.components,
            c.claimants timestep time previous ⟨k⟩ = [d] ∧
            ∀ d' ∈ c.components, d' ≠ d → Stamping.Spares l ⟨k⟩ d'.stamp ∧
              Stamping.Spares l ⟨k⟩
                (d'.stampDynamic timestep time ((previous.get? d'.id).getD .empty))) ∧
    ∀ (log : List (Event α)) (s : Simulator α), Run log s →
      (∀ f, .failed f ∈ log → f.isSolverFailure) ∧
      (s.isReady → ∀ f, s.lastError = some f → .failed f ∈ log) := by
  refine ⟨fun cs c hc => ⟨fun f hf => ?_, fun e₀ he₀ timestep time previous ht => ?_⟩,
    fun log s h => ⟨?_, ?_⟩⟩
  · have hlacks := Circuit.lacksBranch_of_staticEquation (Circuit.numbered_of_ofComponents hc) hf
    constructor
    · rintro declared rfl
      cases hlacks
    · rintro name rfl
      cases hlacks
  · obtain ⟨l, blank, hpart⟩ := Circuit.staticPart (Circuit.numbered_of_ofComponents hc) he₀
    obtain ⟨e, hstamp, hcarry, hfits, hstamped⟩ := hpart.stampTick_ok ht time previous
    have hsources := hfits.numSources_eq
    refine ⟨l, blank, _, e, hpart.fits, hpart.blank_eq, hstamp, hcarry,
      hsources.trans hpart.fits.numSources_eq.symm, hstamped.trans hsources.symm, fun k hk => ?_⟩
    exact hpart.owner ht time previous (hsources ▸ hk)
  · refine (h.induction (P := fun log s => s.Consistent ∧ s.Configured ∧
      ∀ f, .failed f ∈ log → f.isSolverFailure) ⟨⟨Circuit.numbered_unloaded, rfl⟩,
        ⟨StandardValid.validate, rfl⟩, nofun⟩ ?_).2.2
    rintro log s log' s' ⟨hs, hconf, hlog⟩ h
    refine ⟨hs.step h, hconf.step h, fun f hf => ?_⟩
    rcases List.mem_append.1 hf with hf | hf
    · exact hlog f hf
    · exact h.isSolverFailure hs hconf hf
  · exact h.induction (P := fun log s => s.isReady → ∀ f, s.lastError = some f → .failed f ∈ log)
      (fun hready => nomatch hready) Step.lastError

/-- A source of each kind, claimed in the static equation or in the tick. -/
def everySource : List (Component ℚ) :=
  [⟨⟨0⟩, "V0", .voltageSource .ground ⟨1⟩ (.sine 1 1 0) none⟩,
    ⟨⟨1⟩, "V1", .voltageSource .ground ⟨2⟩ (.constant 3) none⟩,
    ⟨⟨2⟩, "W2", .wire ⟨2⟩ ⟨3⟩ none⟩,
    ⟨⟨3⟩, "U3", .opAmp ⟨3⟩ ⟨1⟩ ⟨4⟩ 2 none⟩]

theorem only_solver_fails_everySource :
    (∃ c e₀ companions e, Circuit.ofComponents everySource = .ok c ∧ c.staticEquation = .ok e₀ ∧
      c.stampTick 1 1 [] e₀ = .ok companions e ∧ e.numStamped = e.numSources) ∧
    ∃ (log : List (Event ℚ)) (f : Failure ℚ) (s : Simulator ℚ), Run log s ∧ .failed f ∈ log ∧
      f.isSolverFailure := by
  constructor
  · have hbuilt : (match Circuit.ofComponents everySource with
        | .ok c => match c.staticEquation with
          | .ok _ => true
          | .error _ => false
        | .error _ => false) = true := by decide +kernel
    split at hbuilt
    case h_2 => cases hbuilt
    rename_i c hc
    split at hbuilt
    case h_2 => cases hbuilt
    rename_i e₀ he₀
    obtain ⟨l, blank, companions, e, -, -, hstamp, -, -, hall, -⟩ :=
      (only_solver_fails.1 everySource c hc).2 e₀ he₀ 1 1 [] (by decide +kernel)
    exact ⟨c, e₀, companions, e, hc, he₀, hstamp, hall⟩
  · obtain ⟨log, s, hrun, hready, herr⟩ := run_contradicting
    obtain ⟨f, hf⟩ := Option.isSome_iff_exists.1 herr
    obtain ⟨hfailures, hkept⟩ := only_solver_fails.2 log s hrun
    exact ⟨log, f, s, hrun, hkept hready f hf, hfailures f (hkept hready f hf)⟩

end Simulator

end Nodal
