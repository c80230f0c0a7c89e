import Mathlib.Data.Fin.VecNotation
import Nodal.Proofs.Loading
import Nodal.Proofs.Lockstep
import Nodal.Proofs.Strengths

/-! # Superposition

Simulators whose circuits differ in the strengths of sources alone, and in these along a subspace,
run in lockstep: their ticks end alike, and what is stored after each of them varies along the
subspace. With three circuits, and the combinations of the first two as the subspace, this is the
principle of superposition. -/

namespace Nodal
variable {ι α : Type} [ExactScalar α] {L : Submodule α (ι → α)}

/-! ## Simulators -/

namespace Simulator
variable {s : ι → Simulator α}

/-- The circuits are the same but for the strengths of sources, what is stored varies along the
subspace, and all else but the solver is the same. -/
structure Along (L : Submodule α (ι → α)) (s : ι → Simulator α) : Prop where
  circuit : Circuit.Along L fun i => (s i).circuit
  equation : Possibly (Equation.Along L) fun i => (s i).equation
  state : Circuit.StateAlong L fun i => (s i).state
  solution : Each (· ∈ L) fun i => (s i).solution
  settings : Same fun i => (s i).settings
  remaining : Same fun i => (s i).remaining
  time : Same fun i => (s i).time
  running : Same fun i => (s i).running
  lastError : Same fun i => (s i).lastError

theorem zeroState_along {c : ι → Circuit α} (hc : Circuit.Along L c) :
    Circuit.StateAlong L fun i => zeroState (c i) := by
  simp only [zeroState]
  refine hc.components.map fun d hd => ?_
  obtain ⟨id, hid⟩ := hd.id
  obtain ⟨nodes, hnodes⟩ := hd.nodes
  obtain ⟨numCurrents, hnum⟩ := hd.numCurrents
  simp only [hid, hnodes, hnum]
  exact ⟨id, _, fun _ => rfl, ComponentState.zeroed_along nodes.length numCurrents⟩

theorem zeroSolution_along {c : ι → Circuit α} (hc : Circuit.Along L c) :
    Each (· ∈ L) fun i => List.replicate ((c i).numNodes + (c i).numSources) 0 := by
  obtain ⟨numNodes, hnodes⟩ := hc.numNodes
  obtain ⟨numSources, hsources⟩ := hc.numSources
  simp only [hnodes, hsources]
  exact replicate_zero_mem _

theorem Along.reset (h : Along L s) : Along L fun i => (s i).reset :=
  { h with state := zeroState_along h.circuit, solution := zeroSolution_along h.circuit }

/-- Without nonlinear devices the solver is not asked, and the solves end alike. -/
theorem Along.solveTick (h : Along L s) (budget : Nat) {e : ι → Equation α}
    (he : Equation.Along L e) (time : α) (newton : ι → NewtonSolver α SplitMix64) :
    Together (fun newton' => newton' = newton)
      (fun r => Each (· ∈ L) (fun i => (r i).1) ∧ Circuit.StateAlong L fun i => (r i).2)
      fun i => solveTick budget (s i) (e i) time (newton i) := by
  obtain ⟨settings, hsettings⟩ := h.settings
  simp only [Simulator.solveTick, hsettings, Equation.solveWith, h.circuit.nonlinear,
    List.isEmpty_nil, if_true]
  rcases h.circuit.stampTick settings.timestep time h.state e he with
    ⟨companions, e₁, hr, hcompanions, he₁⟩ | ⟨halt, e₁, hr, -⟩
  swap
  · simp only [hr]
    exact .error halt newton (fun _ => rfl) rfl
  simp only [hr]
  rcases he₁.solve with ⟨x, hx, hmem⟩ | ⟨halt, hx⟩
  swap
  · simp only [hx]
    exact .error halt newton (fun _ => rfl) rfl
  simp only [hx]
  have hvalues : Each (· ∈ L) fun i => 0 :: x i := .cons _ x (fun _ => rfl) L.zero_mem hmem
  rcases h.circuit.deriveState hvalues hcompanions with ⟨state, hd, hstate⟩ | ⟨halt, hd⟩
  · simp only [hd]
    exact .ok _ newton (fun _ => rfl) ⟨hvalues, hstate⟩ rfl
  · simp only [hd]
    exact .error halt newton (fun _ => rfl) rfl

theorem Along.tick (h : Along L s) (budget : Nat) :
    Together (Along L) (fun _ => True) fun i => Simulator.tick budget (s i) := by
  obtain ⟨settings, hsettings⟩ := h.settings
  obtain ⟨time, htime⟩ := h.time
  simp only [Simulator.tick]
  rcases h.equation with hnone | ⟨e, hsome, he⟩
  · simp only [hnone]
    exact .error _ s (fun _ => rfl) h
  simp only [hsome, hsettings, htime]
  rcases h.solveTick budget he (time + settings.timestep) fun i => (s i).newton with
    ⟨r, newton, hr, ⟨hsolution, hstate⟩, -⟩ | ⟨halt, newton, hr, -⟩
  · simp only [hr]
    refine .ok _ _ (fun _ => rfl) trivial ?_
    exact { h with
      equation := .some e (fun _ => rfl) he, settings := .const _, time := .const _,
      state := hstate, solution := hsolution }
  · simp only [hr]
    refine .error halt _ (fun _ => rfl) ?_
    exact { h with
      equation := .some e (fun _ => rfl) he, settings := .const _, time := .const _ }

theorem Along.sameClock (h : Along L s) (i j : ι) : SameClock (s i) (s j) := by
  have hsettings := h.settings.eq j i
  refine ⟨h.remaining.eq j i, h.running.eq j i, ?_, congrArg _ hsettings, congrArg _ hsettings⟩
  rcases h.equation with hnone | ⟨e, hsome, -⟩
  · rw [isReady, isReady, hnone, hnone]
  · rw [isReady, isReady, hsome, hsome]
    rfl

/-- Every tick keeps the simulators along the subspace. -/
theorem lockstep_along :
    Lockstep (Along (ι := ι) (α := α) L) (fun _ _ => True) (fun _ _ => False) where
  clock s h := by
    rcases isEmpty_or_nonempty ι with _ | ⟨⟨i₀⟩⟩
    · exact ⟨.initial, isEmptyElim⟩
    · exact ⟨s i₀, h.sameClock i₀⟩
  waiting s h _ := { h with remaining := .const _ }
  noting s h _ := { h with lastError := .const _ }
  switched s h _ := { h with running := .const _ }
  reset s h := h.reset
  tick budget s h := .inl ⟨trivial, h.tick budget⟩

/-! ## Loads -/

/-- The loads are the same but for the strengths of sources. -/
inductive Call.Along (L : Submodule α (ι → α)) (load : ι → Call α) : Prop
  | circuit (c : ι → Circuit α) : (∀ i, load i = .loadCircuit (c i)) → Circuit.Along L c →
      Along L load
  | components (cs : ι → List (Component α)) : (∀ i, load i = .loadComponents (cs i)) →
      Each (Component.Along L) cs → Along L load
  | description (simulation : SimulatorSettings α) (ds : ι → List (ComponentDescription α)) :
      (∀ i, load i = .loadDescription ⟨simulation, ds i⟩) →
      Each (ComponentDescription.Along L) ds → Along L load

/-- All loads come back with the same answer and leave simulators along the subspace behind, or all
end with the same error. -/
inductive LoadsAlong {β : Type} (L : Submodule α (ι → α)) (answer : β) (load : ι → Changing α β)
    (s : ι → Simulator α) : Prop
  | comesBack (s' : ι → Simulator α) : (∀ i, load i (s i) = .ok answer (s' i)) → Along L s' →
      LoadsAlong L answer load s
  | halts (halt : Halt α) (s' : ι → Simulator α) : (∀ i, load i (s i) = .error halt (s' i)) →
      LoadsAlong L answer load s

theorem LoadsAlong.andReturn {β γ : Type} {answer : β} {load : ι → Changing α β}
    (h : LoadsAlong L answer load s) (f : β → γ) :
    LoadsAlong L (f answer) (fun i => do return f (← load i)) s := by
  rcases h with ⟨s', hs', halong⟩ | ⟨halt, s', hs'⟩
  · refine .comesBack s' (fun i => ?_) halong
    exact run_bind_eq_ok.2 ⟨answer, s' i, hs' i, rfl⟩
  · refine .halts halt s' fun i => ?_
    exact run_bind_eq_error.2 (.inl (hs' i))

section Loads
variable (hsettings : Same fun i => (s i).settings) (hrunning : Same fun i => (s i).running)
include hsettings hrunning

theorem reloaded_along {c : ι → Circuit α} (hc : Circuit.Along L c)
    {equation : ι → Option (Equation α)} (hequation : Possibly (Equation.Along L) equation)
    (lastError : Option (Failure α)) :
    Along L fun i => (s i).reloaded (c i) (equation i) lastError where
  circuit := hc
  equation := hequation
  state := zeroState_along hc
  solution := zeroSolution_along hc
  settings := hsettings
  remaining := .const 0
  time := .const 0
  running := hrunning
  lastError := .const lastError

theorem loadCircuit_along {c : ι → Circuit α} (hc : Circuit.Along L c) :
    LoadsAlong L () (fun i => loadCircuit (c i)) s := by
  have hcomesBack : ∀ (equation : ι → Option (Equation α)) (lastError : Option (Failure α)),
      Possibly (Equation.Along L) equation →
      (∀ i, loadCircuit (c i) (s i) = .ok () ((s i).reloaded (c i) (equation i) lastError)) →
      LoadsAlong L () (fun i => loadCircuit (c i)) s := fun equation lastError hequation hload =>
    .comesBack _ hload (reloaded_along hsettings hrunning hc hequation lastError)
  rcases hc.staticEquation with ⟨e, he, hmem⟩ | ⟨halt, he⟩
  · refine hcomesBack (fun i => some (e i)) none (.some e (fun _ => rfl) hmem) fun i => ?_
    rw [loadCircuit, he]
    rfl
  · cases halt with
    | failed f =>
      refine hcomesBack (fun _ => none) (some f) (.none fun _ => rfl) fun i => ?_
      rw [loadCircuit, he]
      rfl
    | misuse m => exact .halts (.misuse m) s fun i => by rw [loadCircuit, he]
    | exhausted => exact .halts .exhausted s fun i => by rw [loadCircuit, he]

theorem loadComponents_along {cs : ι → List (Component α)} (h : Each (Component.Along L) cs) :
    LoadsAlong L () (fun i => loadComponents (cs i)) s := by
  rcases Circuit.ofComponents_along h with ⟨c, hcs, hc⟩ | ⟨f, hcs⟩
  · simp only [loadComponents, hcs]
    exact loadCircuit_along hsettings hrunning hc
  · simp only [loadComponents, hcs]
    -- the circuit without components is refused, and its error makes way for this one
    exact .comesBack _ (fun _ => rfl) (reloaded_along hsettings hrunning Circuit.unloaded_along
      (.none fun _ => rfl) (some f))

omit hsettings in
theorem loadDescription_along (simulation : SimulatorSettings α)
    {ds : ι → List (ComponentDescription α)} (h : Each (ComponentDescription.Along L) ds) :
    LoadsAlong L () (fun i => loadDescription ⟨simulation, ds i⟩) s := by
  cases hvalid : simulation.validate with
  | error f => exact .halts (.failed f) s fun i => by simp only [loadDescription_eq, hvalid]
  | ok u =>
    rcases Alike.mapM h (fun _ => ComponentDescription.Along.toComponent) with
      ⟨cs, hcs, hmem⟩ | ⟨f, hcs⟩
    · have hload : ∀ i, loadDescription ⟨simulation, ds i⟩ (s i) =
          loadComponents (cs i) ((s i).configured simulation) := by
        intro i
        simp only [loadDescription_eq, hvalid, Description.toComponents, hcs]
      rcases loadComponents_along (s := fun i => (s i).configured simulation) (.const simulation)
        hrunning hmem with ⟨s', hs', halong⟩ | ⟨halt, s', hs'⟩
      · exact .comesBack s' (fun i => (hload i).trans (hs' i)) halong
      · exact .halts halt s' fun i => (hload i).trans (hs' i)
    · refine .halts (.failed f) (fun i => (s i).configured simulation) fun i => ?_
      simp only [loadDescription_eq, hvalid, Description.toComponents, hcs]

theorem Call.Along.loads {load : ι → Call α} (h : Call.Along L load) (budget : Nat) :
    LoadsAlong L none (fun i => perform budget (load i)) s := by
  rcases h with ⟨c, hload, hc⟩ | ⟨cs, hload, hcs⟩ | ⟨simulation, ds, hload, hds⟩
  · simp only [hload, perform]
    exact (loadCircuit_along hsettings hrunning hc).andReturn fun _ => none
  · simp only [hload, perform]
    exact (loadComponents_along hsettings hrunning hcs).andReturn fun _ => none
  · simp only [hload, perform]
    exact (loadDescription_along hrunning simulation hds).andReturn fun _ => none

end Loads

/-- Simulators along a subspace take the same settings, or refuse them. -/
theorem matching_common {call : Call α} (hcall : call.isLoad = false) :
    Matching (Along L) fun _ : ι => call := by
  cases call with
  | start => exact .start fun _ => rfl
  | stop => exact .stop fun _ => rfl
  | advance milliseconds => exact .advance milliseconds fun _ => rfl
  | configure settings =>
    refine .other (fun _ _ => nofun) fun budget s hs => Together.andReturn ?_ fun _ => none
    simp only [configure_eq]
    cases settings.validate with
    | error f => exact .error _ s (fun _ => rfl) hs
    | ok u => exact .ok _ _ (fun _ => rfl) (.const ()) { hs with settings := .const settings }
  | loadCircuit c => cases hcall
  | loadComponents cs => cases hcall
  | loadDescription d => cases hcall

/-! ## Three circuits -/

/-- Of three values the last is the first times `p` and the second times `q`. -/
def mixture (p q : α) : Submodule α (Fin 3 → α) where
  carrier := {x | x 2 = p * x 0 + q * x 1}
  add_mem' {x y} hx hy := by
    show x 2 + y 2 = p * (x 0 + y 0) + q * (x 1 + y 1)
    rw [show x 2 = _ from hx, show y 2 = _ from hy]
    ring
  zero_mem' := by simp
  smul_mem' k x hx := by
    show k * x 2 = p * (k * x 0) + q * (k * x 1)
    rw [show x 2 = _ from hx]
    ring

/-- Superposition. Three simulators with the same settings load circuits without nonlinear devices
that are the same but for the strengths of their sources, those of the third being the first times
`p` and the second times `q`. Then the same calls attempt the same ticks, which succeed in all three
or fail in all three, and after each tick and each call every voltage and current of the third is
the first times `p` and the second times `q`. -/
theorem runs_superpose (p q : α) {load : Fin 3 → Call α} (hload : Call.Along (mixture p q) load)
    {s : Fin 3 → Simulator α} (hsettings : Same fun i => (s i).settings)
    (hrunning : Same fun i => (s i).running) (budget : Nat) {calls : List (Nat × Call α)}
    (hcalls : ∀ c ∈ calls, c.2.isLoad = false) :
    (∃ s' : Fin 3 → Simulator α, (∀ i, perform budget (load i) (s i) = .ok none (s' i)) ∧
      Along (mixture p q) s' ∧
      Each (InStep (Along (mixture p q)) fun _ _ => True) fun i => moments calls (s' i)) ∨
    ∃ (halt : Halt α) (s' : Fin 3 → Simulator α),
      ∀ i, perform budget (load i) (s i) = .error halt (s' i) := by
  rcases hload.loads hsettings hrunning budget with ⟨s', hs', halong⟩ | ⟨halt, s', hs'⟩
  · left
    have hmatching : ∀ c ∈ calls, Same (fun _ : Fin 3 => c.1) ∧
        Matching (Along (mixture p q)) fun _ => c.2 := by
      intro c hc
      exact ⟨.const c.1, matching_common (hcalls c hc)⟩
    have hsteps := lockstep_along.moments (Each.const calls hmatching) halong
    refine ⟨s', hs', halong, hsteps.each ?_⟩
    rintro m ⟨_, _, _, _, hstops⟩
    exact hstops
  · right
    exact ⟨halt, s', hs'⟩

/-- Two sources that drive a capacitor and an inductor through a resistor. -/
def driven (voltage current : ℚ) : List (Component ℚ) :=
  [⟨⟨0⟩, "V0", .voltageSource .ground ⟨1⟩ (.constant voltage) none⟩,
    ⟨⟨1⟩, "R1", .resistor ⟨1⟩ ⟨2⟩ 2 .intact⟩,
    ⟨⟨2⟩, "C2", .capacitor ⟨2⟩ .ground 1⟩,
    ⟨⟨3⟩, "L3", .inductor ⟨2⟩ .ground 1⟩,
    ⟨⟨4⟩, "I4", .currentSource .ground ⟨2⟩ current⟩]

/-- Twice the first less three times the second, over two ticks. -/
theorem runs_superpose_driven :
    let load : Fin 3 → Call ℚ :=
      fun i => .loadComponents (driven (![6, 1, 9] i) (![1, 2, -4] i))
    let calls : List (Nat × Call ℚ) := [(2, .start), (2, .advance 10)]
    ∃ s' : Fin 3 → Simulator ℚ, (∀ i, perform 2 (load i) .initial = .ok none (s' i)) ∧
      Along (mixture 2 (-3)) s' ∧
      Each (InStep (Along (mixture 2 (-3))) fun _ _ => True) (fun i => moments calls (s' i)) ∧
      (moments calls (s' 0)).length = 4 := by
  intro load calls
  have hvoltage : (![6, 1, 9] : Fin 3 → ℚ) ∈ mixture (2 : ℚ) (-3) := by
    show (9 : ℚ) = 2 * 6 + -3 * 1
    norm_num
  have hcurrent : (![1, 2, -4] : Fin 3 → ℚ) ∈ mixture (2 : ℚ) (-3) := by
    show (-4 : ℚ) = 2 * 1 + -3 * 2
    norm_num
  have hload : Call.Along (mixture 2 (-3)) load := by
    have hplain : ∀ c : Component ℚ, c.device.isNonlinear = false → c.device.strength? = none →
        Component.Along (mixture (2 : ℚ) (-3)) fun _ => c := fun c hlinear hstrength =>
      ⟨c.id, c.name, _, fun _ => rfl, .plain c.device hlinear hstrength fun _ => rfl⟩
    refine .components _ (fun _ => rfl) (.cons _ _ (fun _ => rfl)
      ⟨_, _, _, fun _ => rfl, .constant _ _ _ none (fun _ => rfl) hvoltage⟩ ?_)
    refine .cons _ _ (fun _ => rfl) (hplain _ rfl rfl) ?_
    refine .cons _ _ (fun _ => rfl) (hplain _ rfl rfl) ?_
    refine .cons _ _ (fun _ => rfl) (hplain _ rfl rfl) ?_
    exact .cons _ _ (fun _ => rfl)
      ⟨_, _, _, fun _ => rfl, .currentSource _ _ _ (fun _ => rfl) hcurrent⟩ (.nil fun _ => rfl)
  have hcalls : ∀ c ∈ calls, c.2.isLoad = false := by simp [calls, Call.isLoad]
  obtain ⟨answer, hfirst⟩ :=
    exists_of_succeeds (r := perform 2 (load 0) .initial) (by decide +kernel)
  rcases runs_superpose 2 (-3) hload (s := fun _ => .initial) (.const _) (.const _) 2 hcalls with
    ⟨s', hs', halong, hsteps⟩ | ⟨halt, s', hs'⟩
  · refine ⟨s', hs', halong, hsteps, ?_⟩
    have hs₀ : s' 0 = after (perform 2 (load 0) .initial) := by
      rw [hs' 0]
      rfl
    rw [hs₀]
    decide +kernel
  · cases hfirst.symm.trans (hs' 0)

end Simulator

end Nodal
