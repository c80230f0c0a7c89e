import Nodal.Proofs.Draws
import Nodal.Proofs.Exact
import Nodal.Proofs.Loading
import Nodal.Proofs.Lockstep

/-! # Seeds

The seed matters only once a number is drawn. Simulators that differ in their seeds alone run in
lockstep up to a tick in which all of them draw, and first at the same place of its solve. Without
nonlinear devices nothing is ever drawn, and there the settings of the solver make no difference
either. -/

namespace Nodal

/-- The outcome, with a state that is left as it is. -/
def Outcome.leaving {α β σ : Type} (s : σ) : Outcome α β → EStateM.Result (Halt α) σ β
  | .ok b => .ok b s
  | .error h => .error h s

namespace Equation
open Drawing
variable {α ρ : Type} [Scalar α] [RandomSource ρ α] (e : Equation α) {elements : List (Component α)}
  (budget : Nat)

theorem solveWith_linear (helements : elements = []) (solver : NewtonSolver α ρ) :
    e.solveWith elements budget solver = Outcome.leaving solver e.solve := by
  subst helements
  simp only [solveWith, List.isEmpty_nil, if_true]
  cases e.solve <;> rfl

theorem solveWith_nonlinear (helements : elements ≠ []) (solver : NewtonSolver α ρ) :
    e.solveWith elements budget solver =
      match Newton.solve solver.settings (e.toSystem elements leakage) budget solver.draws with
      | .ok solution draws => .ok solution.x { solver with draws }
      | .error h draws => .error h { solver with draws } := by
  have hsome : elements.isEmpty = false := List.isEmpty_eq_false_iff.2 helements
  simp only [solveWith, NewtonSolver.solve, hsome, Bool.false_eq_true, if_false]
  cases Newton.solve solver.settings (e.toSystem elements leakage) budget solver.draws <;> rfl

/-- A solve that draws nothing is the same for all solvers with these settings. -/
theorem solveWith_quiet {settings : NewtonSettings α}
    (hquiet : Quiet (Newton.solve settings (e.toSystem elements leakage) budget :
      Drawing α ρ (NewtonSolution α))) :
    ∃ o, ∀ solver : NewtonSolver α ρ, solver.settings = settings →
      e.solveWith elements budget solver = Outcome.leaving solver o := by
  by_cases helements : elements = []
  · exact ⟨e.solve, fun solver _ => e.solveWith_linear budget helements solver⟩
  obtain ⟨o, ho⟩ := hquiet
  cases o with
  | ok solution =>
    refine ⟨.ok solution.x, fun solver hsettings => ?_⟩
    rw [← hsettings] at ho
    rw [e.solveWith_nonlinear budget helements, ho]
    rfl
  | error h =>
    refine ⟨.error h, fun solver hsettings => ?_⟩
    rw [← hsettings] at ho
    rw [e.solveWith_nonlinear budget helements, ho]
    rfl

theorem draws_solveWith (helements : elements ≠ []) (solver : NewtonSolver α ρ) :
    (after (e.solveWith elements budget solver)).draws =
      after (Newton.solve solver.settings (e.toSystem elements leakage) budget solver.draws) := by
  rw [e.solveWith_nonlinear budget helements]
  cases Newton.solve solver.settings (e.toSystem elements leakage) budget solver.draws <;> rfl

end Equation

namespace Simulator
open Drawing
variable {ι α : Type} [Scalar α] {budget : Nat}

/-! ## Ticks -/

/-- The simulator with other settings and another solver. -/
def solvedBy (settings : SimulatorSettings α) (newton : NewtonSolver α SplitMix64)
    (s : Simulator α) : Simulator α :=
  { s with settings, newton }

/-- The equation that the next tick solves. -/
def TickEquation (s : Simulator α) (e : Equation α) : Prop :=
  ∃ e₀ companions, s.equation = some e₀ ∧
    s.circuit.stampTick s.settings.timestep (s.time + s.settings.timestep) s.state e₀ =
      .ok companions e

/-- Ticks of one timestep end alike when their solves do, and leave the solvers alone. -/
theorem tick_solvedBy {s : Simulator α} {settings : ι → SimulatorSettings α}
    {newton : ι → NewtonSolver α SplitMix64}
    (htimestep : ∀ i, (settings i).timestep = s.settings.timestep)
    (hsolve : ∀ e, s.TickEquation e →
      ∃ o, ∀ i, e.solveWith s.circuit.nonlinear budget (newton i) = Outcome.leaving (newton i) o) :
    (∃ solution state time, ∀ i, tick budget (s.solvedBy (settings i) (newton i)) =
      .ok () (solvedBy (settings i) (newton i) { s with solution, state, time })) ∨
    ∃ halt, ∀ i, tick budget (s.solvedBy (settings i) (newton i)) =
      .error halt (s.solvedBy (settings i) (newton i)) := by
  simp only [tick, solvedBy, solveTick, htimestep]
  cases he₀ : s.equation with
  | none => exact .inr ⟨_, fun i => rfl⟩
  | some e₀ =>
    simp only
    cases hstamp : s.circuit.stampTick s.settings.timestep (s.time + s.settings.timestep)
      s.state e₀ with
    | error halt e => exact .inr ⟨halt, fun i => rfl⟩
    | ok companions e =>
      obtain ⟨o, ho⟩ := hsolve e ⟨e₀, companions, he₀, hstamp⟩
      simp only [ho]
      cases o with
      | error halt => exact .inr ⟨halt, fun i => rfl⟩
      | ok x =>
        simp only [Outcome.leaving]
        cases s.circuit.deriveState (0 :: x) companions with
        | error halt => exact .inr ⟨halt, fun i => rfl⟩
        | ok state => exact .inl ⟨_, _, _, fun i => rfl⟩

theorem draws_tick {s : Simulator α} {e : Equation α} (he : s.TickEquation e)
    (hnonlinear : s.circuit.nonlinear ≠ []) :
    (after (tick budget s)).newton.draws =
      after (Newton.solve s.newton.settings (e.toSystem s.circuit.nonlinear leakage) budget
        s.newton.draws) := by
  obtain ⟨e₀, companions, he₀, hstamp⟩ := he
  rw [← e.draws_solveWith budget hnonlinear]
  simp only [tick, solveTick, he₀, hstamp]
  cases hsolve : e.solveWith s.circuit.nonlinear budget s.newton with
  | error halt newton => rfl
  | ok x newton =>
    simp only
    cases s.circuit.deriveState (0 :: x) companions <;> rfl

/-! ## Simulators that are almost the same -/

/-- The simulators are the same but for settings and solvers, of which `V` holds in this circuit. A
tick takes the same time in all of them. -/
def SameBut
    (V : Circuit α → (ι → SimulatorSettings α) → (ι → NewtonSolver α SplitMix64) → Prop)
    (s : ι → Simulator α) : Prop :=
  ∃ (base : Simulator α) (settings : ι → SimulatorSettings α)
    (newton : ι → NewtonSolver α SplitMix64),
    (∀ i, s i = base.solvedBy (settings i) (newton i)) ∧
    (∀ i, (settings i).timestep = base.settings.timestep) ∧
    (∀ i, (settings i).rate = base.settings.rate) ∧ V base.circuit settings newton

/-- No simulator draws in its next tick. -/
def TickQuiet (budget : Nat) (s : ι → Simulator α) : Prop :=
  ∀ i, (after (tick budget (s i))).newton = (s i).newton

section SameBut
variable {V : Circuit α → (ι → SimulatorSettings α) → (ι → NewtonSolver α SplitMix64) → Prop}
  {s : ι → Simulator α}

omit [Scalar α] in
/-- A change that settings and solvers have no part in. -/
theorem SameBut.change (h : SameBut V s) {f : Simulator α → Simulator α}
    (hf : ∀ settings newton s, f (solvedBy settings newton s) = solvedBy settings newton (f s))
    (hsettings : ∀ s, (f s).settings = s.settings)
    (hcircuit : ∀ s settings newton, V s.circuit settings newton →
      V (f s).circuit settings newton) : SameBut V fun i => f (s i) := by
  obtain ⟨base, settings, newton, hs, htimestep, hrate, hV⟩ := h
  refine ⟨f base, settings, newton, fun i => ?_, fun i => ?_, fun i => ?_, hcircuit _ _ _ hV⟩
  · show f (s i) = solvedBy (settings i) (newton i) (f base)
    rw [hs, hf]
  · rw [hsettings, htimestep]
  · rw [hsettings, hrate]

theorem lockstep_sameBut {Goes Stops : Nat → (ι → Simulator α) → Prop}
    (htick : ∀ budget s, SameBut V s →
      Goes budget s ∧ Together (SameBut V) (fun _ => True) (fun i => tick budget (s i)) ∨
        Stops budget s) : Lockstep (SameBut V) Goes Stops where
  clock := by
    rintro s ⟨base, settings, newton, hs, htimestep, hrate, -⟩
    refine ⟨base, fun i => ?_⟩
    rw [hs]
    exact ⟨rfl, rfl, rfl, htimestep i, hrate i⟩
  waiting s h remaining :=
    h.change (f := fun s => { s with remaining }) (fun _ _ _ => rfl) (fun _ => rfl) fun _ _ _ => id
  noting s h lastError :=
    h.change (f := fun s => { s with lastError }) (fun _ _ _ => rfl) (fun _ => rfl) fun _ _ _ => id
  switched s h running :=
    h.change (f := fun s => { s with running }) (fun _ _ _ => rfl) (fun _ => rfl) fun _ _ _ => id
  reset s h := h.change (f := reset) (fun _ _ _ => rfl) (fun _ => rfl) fun _ _ _ => id
  tick := htick

/-- Ticks whose solves end alike and leave the solvers alone. -/
theorem together_of_solves {base : Simulator α} {settings : ι → SimulatorSettings α}
    {newton : ι → NewtonSolver α SplitMix64}
    (htimestep : ∀ i, (settings i).timestep = base.settings.timestep)
    (hrate : ∀ i, (settings i).rate = base.settings.rate) (hV : V base.circuit settings newton)
    (hsolve : ∀ e, base.TickEquation e → ∃ o, ∀ i,
      e.solveWith base.circuit.nonlinear budget (newton i) = Outcome.leaving (newton i) o) :
    TickQuiet budget (fun i => base.solvedBy (settings i) (newton i)) ∧
      Together (SameBut V) (fun _ => True)
        fun i => tick budget (base.solvedBy (settings i) (newton i)) := by
  rcases tick_solvedBy htimestep hsolve with ⟨solution, state, time, ht⟩ | ⟨halt, ht⟩
  · constructor
    · intro i
      rw [ht]
      rfl
    · refine .ok _ _ ht trivial ?_
      exact ⟨{ base with solution, state, time }, settings, newton, fun _ => rfl, htimestep, hrate,
        hV⟩
  · constructor
    · intro i
      rw [ht]
      rfl
    · exact .error halt _ ht ⟨base, settings, newton, fun _ => rfl, htimestep, hrate, hV⟩

end SameBut

/-! ## Calls -/

/-- The call with other settings. -/
def Call.mapSettings (f : SimulatorSettings α → SimulatorSettings α) : Call α → Call α
  | .configure settings => .configure (f settings)
  | .loadDescription d => .loadDescription { d with simulation := f d.simulation }
  | call => call

/-- The circuits that a call may put in the place of the old one. -/
def Call.Loads : Call α → Circuit α → Prop
  | .loadCircuit c, c' => c' = c
  | .loadComponents cs, c' => c' = .unloaded ∨ Circuit.ofComponents cs = .ok c'
  | .loadDescription d, c' => c' = .unloaded ∨ d.toCircuit = .ok c'
  | _, _ => False

theorem circuit_of_loadCircuit {c : Circuit α} {s s' : Simulator α}
    (h : loadCircuit c s = .ok () s') : s'.circuit = c := by
  unfold loadCircuit at h
  split at h <;> cases h <;> rfl

theorem circuit_of_loadComponents {cs : List (Component α)} {s s' : Simulator α}
    (h : loadComponents cs s = .ok () s') :
    s'.circuit = .unloaded ∨ Circuit.ofComponents cs = .ok s'.circuit := by
  unfold loadComponents at h
  cases hcs : Circuit.ofComponents cs with
  | ok c =>
    rw [hcs] at h
    rw [circuit_of_loadCircuit h]
    exact .inr rfl
  | error f =>
    rw [hcs] at h
    cases h
    exact .inl rfl

section Calls
variable {V : Circuit α → (ι → SimulatorSettings α) → (ι → NewtonSolver α SplitMix64) → Prop}
  {s : ι → Simulator α}

theorem SameBut.loaded (h : SameBut V s) {load : Changing α Unit} (hload : Erases load)
    (hV : ∀ s s', load s = .ok () s' → ∀ c σ ν, V c σ ν → V s'.circuit σ ν) :
    Together (SameBut V) Same fun i => load (s i) := by
  rcases hload with ⟨c, equation, lastError, hload⟩ | ⟨halt, -, hload⟩
  · refine .ok _ _ (fun i => hload (s i)) (.const ()) (h.change (f := reloaded c equation lastError)
      (fun _ _ _ => rfl) (fun _ => rfl) fun s σ ν hs => ?_)
    exact hV s _ (hload s) _ σ ν hs
  · exact .error halt s (fun i => hload (s i)) h

/-- Maps of settings that keep simulators the same but for what `V` allows: a tick takes the same
time under all of them, and all accept the settings or none does. -/
structure Allowed
    (V : Circuit α → (ι → SimulatorSettings α) → (ι → NewtonSolver α SplitMix64) → Prop)
    (f : ι → SimulatorSettings α → SimulatorSettings α) : Prop where
  timestep_eq : ∀ i σ, (f i σ).timestep = σ.timestep
  rate_eq : ∀ i σ, (f i σ).rate = σ.rate
  validate : ∀ σ, Same fun i => (f i σ).validate
  configured : ∀ σ (c : Circuit α), (∃ σ' ν, V c σ' ν) →
    V c (fun i => f i σ) fun i => solverOf (f i σ)

namespace Allowed
variable {f : ι → SimulatorSettings α → SimulatorSettings α}

theorem sameBut (hf : Allowed V f) (hs : SameBut V s) (σ : SimulatorSettings α) :
    SameBut V fun i => (s i).configured (f i σ) := by
  obtain ⟨base, settings, newton, hs, -, -, hV⟩ := hs
  refine ⟨{ base with settings := σ }, fun i => f i σ, _, fun i => ?_,
    fun i => hf.timestep_eq i σ, fun i => hf.rate_eq i σ, hf.configured σ _ ⟨settings, newton, hV⟩⟩
  show (s i).configured (f i σ) = _
  rw [hs]
  rfl

/-- All simulators take the settings, or all refuse them. -/
theorem together_configure (hf : Allowed V f) (hs : SameBut V s) (σ : SimulatorSettings α) :
    Together (SameBut V) Same fun i => configure (f i σ) (s i) := by
  obtain ⟨r, hr⟩ := hf.validate σ
  simp only [configure_eq, hr]
  cases r with
  | error e => exact .error _ s (fun _ => rfl) hs
  | ok u => exact .ok _ _ (fun _ => rfl) (.const ()) (hf.sameBut hs σ)

/-- A description whose components are refused has changed the settings all the same. -/
theorem together_loadDescription (hf : Allowed V f) (hs : SameBut V s) {d : Description α}
    (hload : ∀ c', c' = .unloaded ∨ d.toCircuit = .ok c' → ∀ c σ ν, V c σ ν → V c' σ ν) :
    Together (SameBut V) Same
      fun i => loadDescription { d with simulation := f i d.simulation } (s i) := by
  obtain ⟨r, hr⟩ := hf.validate d.simulation
  have hcomponents : ∀ i, Description.toComponents { d with simulation := f i d.simulation } =
      d.toComponents := fun _ => rfl
  simp only [loadDescription_eq, hr, hcomponents]
  have hconfigured := hf.sameBut hs d.simulation
  cases r with
  | error e => exact .error _ s (fun _ => rfl) hs
  | ok u =>
    cases hcs : d.toComponents with
    | error e => exact .error _ _ (fun _ => rfl) hconfigured
    | ok cs =>
      refine hconfigured.loaded (erases_loadComponents cs) fun s s' hs' => hload _ ?_
      have hcircuit : d.toCircuit = Circuit.ofComponents cs := by
        rw [Description.toCircuit, hcs]
        rfl
      rw [hcircuit]
      exact circuit_of_loadComponents hs'

/-- The same call with settings by such maps. -/
theorem matching_mapSettings (hf : Allowed V f) {call : Call α}
    (hload : ∀ c', call.Loads c' → ∀ c σ ν, V c σ ν → V c' σ ν) :
    Matching (SameBut V) fun i => call.mapSettings (f i) := by
  cases call with
  | start => exact .start fun _ => rfl
  | stop => exact .stop fun _ => rfl
  | advance milliseconds => exact .advance milliseconds fun _ => rfl
  | configure σ =>
    refine .other (fun _ _ => nofun) fun budget s hs => Together.andReturn ?_ fun _ => none
    exact hf.together_configure hs σ
  | loadCircuit c =>
    refine .other (fun _ _ => nofun) fun budget s hs => Together.andReturn ?_ fun _ => none
    refine hs.loaded (erases_loadCircuit c) fun s s' hs' => ?_
    exact hload _ (circuit_of_loadCircuit hs')
  | loadComponents cs =>
    refine .other (fun _ _ => nofun) fun budget s hs => Together.andReturn ?_ fun _ => none
    refine hs.loaded (erases_loadComponents cs) fun s s' hs' => ?_
    exact hload _ (circuit_of_loadComponents hs')
  | loadDescription d =>
    refine .other (fun _ _ => nofun) fun budget s hs => Together.andReturn ?_ fun _ => none
    exact hf.together_loadDescription hs hload

end Allowed

end Calls

/-! ## The first draw -/

/-- The settings differ in the seed alone, and the solvers in the numbers that come next. -/
def OnlySeeds (_ : Circuit α) (settings : ι → SimulatorSettings α)
    (newton : ι → NewtonSolver α SplitMix64) : Prop :=
  (∃ σ : SimulatorSettings α, ∀ i, settings i = { σ with seed := (settings i).seed }) ∧
    Same (fun i => (newton i).settings) ∧ Same fun i => (newton i).draws.count

/-- The simulators differ in their seeds and in the numbers that come next. -/
abbrev SameButSeeds (s : ι → Simulator α) : Prop := SameBut OnlySeeds s

/-- In its next tick the simulator asks for a solution of the system with these settings. The draws
of the tick are those of the solve from a place on, and there are some. -/
structure DrawsAt (budget : Nat) (settings : NewtonSettings α) (system : NonlinearSystem α)
    (p : Newton.DrawPoint α) (s : Simulator α) : Prop where
  settings_eq : s.newton.settings = settings
  system_eq : ∃ e, s.TickEquation e ∧ s.circuit.nonlinear ≠ [] ∧
    system = e.toSystem s.circuit.nonlinear leakage
  draws_eq : (after (tick budget s)).newton.draws =
    after (p.resume settings system budget s.newton.draws)
  count_lt : s.newton.draws.count < (after (tick budget s)).newton.draws.count

/-- All simulators draw in the next tick, and first at the same place: the solve comes there without
a draw, whatever the numbers are. -/
def DrawTogether (budget : Nat) (s : ι → Simulator α) : Prop :=
  ∃ (settings : NewtonSettings α) (system : NonlinearSystem α) (p : Newton.DrawPoint α),
    p.x ≠ [] ∧
    (Newton.solve settings system budget : Drawing α SplitMix64 (NewtonSolution α)) =
      p.resume settings system budget ∧
    ∀ i, DrawsAt budget settings system p (s i)

theorem SameButSeeds.tick {s : ι → Simulator α} (h : SameButSeeds s) (budget : Nat) :
    TickQuiet budget s ∧
        Together SameButSeeds (fun _ => True) (fun i => Simulator.tick budget (s i)) ∨
      DrawTogether budget s := by
  obtain ⟨base, settings, newton, hs, htimestep, hrate, hV⟩ := h
  obtain rfl : s = _ := funext hs
  obtain ⟨-, ⟨config, hconfig⟩, -⟩ := id hV
  by_cases hquiet : ∀ e, base.TickEquation e → base.circuit.nonlinear = [] ∨
      Quiet (Newton.solve config (e.toSystem base.circuit.nonlinear leakage) budget :
        Drawing α SplitMix64 (NewtonSolution α))
  · left
    refine together_of_solves htimestep hrate hV fun e he => ?_
    rcases hquiet e he with hlinear | hsolve
    · exact ⟨e.solve, fun i => e.solveWith_linear budget hlinear (newton i)⟩
    · obtain ⟨o, ho⟩ := e.solveWith_quiet budget hsolve
      exact ⟨o, fun i => ho (newton i) (hconfig i)⟩
  · right
    push Not at hquiet
    obtain ⟨e, he, hnonlinear, hdraws⟩ := hquiet
    rcases Newton.solve_comesTo (ρ := SplitMix64) config
      (e.toSystem base.circuit.nonlinear leakage) budget with hnot | ⟨p, hx, hp⟩
    · exact absurd hnot hdraws
    refine ⟨config, _, p, hx, hp, fun i => ?_⟩
    have hequation : (base.solvedBy (settings i) (newton i)).TickEquation e := by
      obtain ⟨e₀, companions, he₀, hstamp⟩ := he
      refine ⟨e₀, companions, he₀, ?_⟩
      rw [← htimestep i] at hstamp
      exact hstamp
    have hticked :
        (after (Simulator.tick budget (base.solvedBy (settings i) (newton i)))).newton.draws =
          after (p.resume config (e.toSystem base.circuit.nonlinear leakage) budget
            (newton i).draws) := by
      rw [draws_tick hequation hnonlinear, ← hp]
      exact congrArg (fun c => after (Newton.solve c (e.toSystem base.circuit.nonlinear leakage)
        budget (newton i).draws)) (hconfig i)
    refine ⟨hconfig i, ⟨e, hequation, hnonlinear, rfl⟩, hticked, ?_⟩
    rw [hticked]
    exact Newton.DrawPoint.lt_count_resume config _ budget hx (newton i).draws

/-- No device is nonlinear. Settings of the solver and seeds may differ. -/
abbrev LinearButSolvers (s : ι → Simulator α) : Prop :=
  SameBut (fun c _ _ => c.hasNonlinear = false) s

theorem LinearButSolvers.tick {s : ι → Simulator α} (h : LinearButSolvers s) (budget : Nat) :
    TickQuiet budget s ∧
      Together LinearButSolvers (fun _ => True) fun i => Simulator.tick budget (s i) := by
  obtain ⟨base, settings, newton, hs, htimestep, hrate, hlinear⟩ := h
  obtain rfl : s = _ := funext hs
  have hnil := Circuit.nonlinear_eq_nil hlinear
  refine together_of_solves htimestep hrate hlinear fun e he => ?_
  exact ⟨e.solve, fun i => e.solveWith_linear budget hnil (newton i)⟩

/-- The same call but for the seeds in it. -/
def CallsButSeeds (c : ι → Nat × Call α) : Prop :=
  ∃ (budget : Nat) (call : Call α) (seed : ι → UInt64),
    ∀ i, c i = (budget, call.mapSettings fun σ => { σ with seed := seed i })

/-- The same call but for seeds and settings of the solver, which are valid in all cases or in none.
It loads no nonlinear device. -/
def LinearCallsButSolvers (c : ι → Nat × Call α) : Prop :=
  ∃ (budget : Nat) (call : Call α) (seed : ι → UInt64) (config : ι → NewtonSettings α),
    (∀ c', call.Loads c' → c'.hasNonlinear = false) ∧ Same (fun i => (config i).validate) ∧
    ∀ i, c i = (budget, call.mapSettings fun σ => { σ with seed := seed i, newton := config i })

theorem allowed_seed (seed : ι → UInt64) :
    Allowed (OnlySeeds (α := α)) fun i σ => { σ with seed := seed i } where
  timestep_eq _ _ := rfl
  rate_eq _ _ := rfl
  validate σ := .const σ.validate
  configured σ _ _ := ⟨⟨σ, fun _ => rfl⟩, .const σ.newton, .const 0⟩

theorem allowed_newton (seed : ι → UInt64) {config : ι → NewtonSettings α}
    (hvalid : Same fun i => (config i).validate) :
    Allowed (fun c _ _ => c.hasNonlinear = false)
      fun i σ => { σ with seed := seed i, newton := config i } where
  timestep_eq _ _ := rfl
  rate_eq _ _ := rfl
  validate σ := by
    obtain ⟨r, hr⟩ := hvalid
    simp only [SimulatorSettings.validate, hr]
    exact .const _
  configured := by
    rintro σ c ⟨σ', ν, hlinear⟩
    exact hlinear

/-- The seed matters only once a number is drawn. Simulators that differ in their seeds alone, and
whose calls do, attempt the same ticks, none of which draws and which end alike, up to a tick in
which all of them draw, and first at the same place. While circuits have no nonlinear device nothing
is drawn at all, and there the simulators, and the calls, may differ in the settings of the solver
as well. -/
theorem seed_matters_once_drawn :
    (∀ (s : ι → Simulator α) (calls : ι → List (Nat × Call α)), SameButSeeds s →
      Each CallsButSeeds calls →
        Until (InStep SameButSeeds TickQuiet) (Stopped SameButSeeds DrawTogether)
          fun i => moments (calls i) (s i)) ∧
    ∀ (s : ι → Simulator α) (calls : ι → List (Nat × Call α)), LinearButSolvers s →
      Each LinearCallsButSolvers calls →
        Each (InStep LinearButSolvers TickQuiet) fun i => moments (calls i) (s i) := by
  constructor
  · intro s calls hs hcalls
    have hlockstep : Lockstep (SameButSeeds (ι := ι) (α := α)) TickQuiet DrawTogether :=
      lockstep_sameBut fun budget s hs => SameButSeeds.tick hs budget
    refine hlockstep.moments (hcalls.imp ?_) hs
    rintro c ⟨budget, call, seed, hc⟩
    obtain rfl : c = _ := funext hc
    exact ⟨.const budget, (allowed_seed seed).matching_mapSettings fun _ _ _ _ _ hV => hV⟩
  · intro s calls hs hcalls
    have hlockstep : Lockstep (LinearButSolvers (ι := ι) (α := α)) TickQuiet fun _ _ => False :=
      lockstep_sameBut fun budget s hs => .inl (LinearButSolvers.tick hs budget)
    refine (hlockstep.moments (hcalls.imp ?_) hs).each ?_
    · rintro c ⟨budget, call, seed, config, hlinear, hvalid, hc⟩
      obtain rfl : c = _ := funext hc
      exact ⟨.const budget, (allowed_newton seed hvalid).matching_mapSettings
        fun c' hc' _ _ _ _ => hlinear c' hc'⟩
    · rintro m ⟨_, _, _, _, hstops⟩
      exact hstops

/-- How many numbers are drawn. -/
def Moment.draws : Moment α → Nat
  | .tick budget before =>
    (after (Simulator.tick budget before)).newton.draws.count - before.newton.draws.count
  | .call _ _ _ => 0

/-- A source with a resistor, and behind it another device. -/
def behindResistor (device : Node → Node → Device ℚ) : List (Component ℚ) :=
  [⟨⟨0⟩, "V0", .voltageSource .ground ⟨1⟩ (.constant 5) none⟩,
    ⟨⟨1⟩, "R1", .resistor ⟨1⟩ ⟨2⟩ 1 .intact⟩,
    ⟨⟨2⟩, "X2", device ⟨2⟩ .ground⟩]

/-- Calls that load the circuit with these settings and advance it by two ticks. -/
def twoTicks (settings : SimulatorSettings ℚ) (device : Node → Node → Device ℚ) :
    List (Nat × Call ℚ) :=
  [(2, .configure settings), (2, .loadComponents (behindResistor device)), (2, .start),
    (2, .advance 10)]

/-- One round for each of two attempts, so that the second attempt perturbs the guess. -/
def hasty : SimulatorSettings ℚ :=
  { SimulatorSettings.standard with
    newton := { NewtonSettings.standard with maxIterations := 1, maxRestarts := 2 } }

/-- With a diode two seeds agree up to a tick that draws three numbers; with a capacitor two
solvers agree throughout. -/
theorem seed_matters_once_drawn_rectifying :
    let diode (a b : Node) : Device ℚ := .diode a b ⟨1, 1000⟩
    let capacitor (a b : Node) : Device ℚ := .capacitor a b 1
    let seeded (first : Bool) : SimulatorSettings ℚ :=
      { hasty with seed := if first then 1 else 2 }
    let solved (first : Bool) : SimulatorSettings ℚ := if first then hasty else .standard
    (Until (InStep SameButSeeds TickQuiet) (Stopped SameButSeeds DrawTogether)
        (fun first => moments (twoTicks (seeded first) diode) .initial) ∧
      (moments (twoTicks (seeded true) diode) .initial).map Moment.draws = [0, 0, 0, 3, 0]) ∧
    Each (InStep LinearButSolvers TickQuiet)
        (fun first => moments (twoTicks (solved first) capacitor) .initial) ∧
      (moments (twoTicks (solved true) capacitor) .initial).map Moment.draws =
        [0, 0, 0, 0, 0, 0] := by
  intro diode capacitor seeded solved
  obtain ⟨hseeds, hsolvers⟩ := seed_matters_once_drawn (ι := Bool) (α := ℚ)
  refine ⟨⟨hseeds _ _ ?_ ?_, by decide +kernel⟩, hsolvers _ _ ?_ ?_, by decide +kernel⟩
  · exact ⟨.initial, _, _, fun _ => rfl, fun _ => rfl, fun _ => rfl, ⟨.standard, fun _ => rfl⟩,
      .const _, .const _⟩
  · have hcommon : ∀ call : Call ℚ, (∀ f, call.mapSettings f = call) →
        CallsButSeeds fun _ : Bool => (2, call) := by
      intro call hcall
      exact ⟨2, call, fun _ => 0, fun _ => by rw [hcall]⟩
    refine .cons _ _ (fun _ => rfl) ⟨2, .configure hasty, fun first => if first then 1 else 2,
      fun _ => rfl⟩ ?_
    exact .cons _ _ (fun _ => rfl) (hcommon _ fun _ => rfl) (.cons _ _ (fun _ => rfl)
      (hcommon _ fun _ => rfl) (.cons _ _ (fun _ => rfl) (hcommon _ fun _ => rfl)
        (.nil fun _ => rfl)))
  · exact ⟨.initial, _, _, fun _ => rfl, fun _ => rfl, fun _ => rfl, rfl⟩
  · have hcommon : ∀ call : Call ℚ, (∀ f, call.mapSettings f = call) →
        (∀ c, call.Loads c → c.hasNonlinear = false) →
          LinearCallsButSolvers fun _ : Bool => (2, call) := by
      intro call hcall hloads
      exact ⟨2, call, fun _ => 0, fun _ => .standard, hloads, .const _, fun _ => by rw [hcall]⟩
    have hvalid : ∀ first, (solved first).newton.validate = .ok () := by
      intro first
      cases first
      · exact eq_ok_of_isOk (by decide +kernel)
      · exact eq_ok_of_isOk (by decide +kernel)
    refine .cons _ _ (fun _ => rfl) ⟨2, .configure hasty, fun _ => defaultSeed,
      fun first => (solved first).newton, fun _ hloads => hloads.elim, ⟨_, hvalid⟩, ?_⟩ ?_
    · intro first
      cases first <;> rfl
    refine .cons _ _ (fun _ => rfl) (hcommon _ (fun _ => rfl) ?_) (.cons _ _ (fun _ => rfl)
      (hcommon _ (fun _ => rfl) fun _ hloads => hloads.elim) (.cons _ _ (fun _ => rfl)
        (hcommon _ (fun _ => rfl) fun _ hloads => hloads.elim) (.nil fun _ => rfl)))
    rintro c (rfl | hc)
    · rfl
    · cases hc
      rfl

end Simulator

end Nodal
