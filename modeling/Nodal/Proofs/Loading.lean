import Nodal.Proofs.Stored

/-! # Loading and configuring

A load comes back from every simulator or from none. When it comes back, the new simulator owes its
circuit, equation, clocks, state and error to the load alone; the settings, the switch and the
solver are those of the old one. A description brings settings and solver too, so after it only the
switch can tell two simulators apart, until it is set.

Settings that are refused leave the simulator as it was. A description brings its settings first,
and they stay when its components are refused. -/

namespace Nodal.Simulator
variable {α : Type} [Scalar α] {s s' s₁ s₂ : Simulator α} {d : Description α} {f : Failure α}

/-! ## Loads -/

/-- The simulator with another circuit at rest. -/
def reloaded (c : Circuit α) (equation : Option (Equation α)) (lastError : Option (Failure α))
    (s : Simulator α) : Simulator α :=
  reset { s with circuit := c, remaining := 0, time := 0, equation, lastError }

/-- A load that leaves the same circuit at rest in every simulator, or does not come back from
any. -/
inductive Erases (load : Changing α Unit) : Prop
  | comesBack (c : Circuit α) (equation : Option (Equation α)) (lastError : Option (Failure α)) :
      (∀ s, load s = .ok () (s.reloaded c equation lastError)) → Erases load
  | halts (halt : Halt α) : (∀ f, halt ≠ .failed f) → (∀ s, load s = .error halt s) → Erases load

theorem erases_loadCircuit (c : Circuit α) : Erases (loadCircuit c) := by
  cases h : c.staticEquation with
  | ok e => exact .comesBack c (some e) none fun s => by rw [loadCircuit, h]; rfl
  | error halt =>
    cases halt with
    | failed f => exact .comesBack c none (some f) fun s => by rw [loadCircuit, h]; rfl
    | misuse m => exact .halts (.misuse m) (fun _ => nofun) fun s => by rw [loadCircuit, h]
    | exhausted => exact .halts .exhausted (fun _ => nofun) fun s => by rw [loadCircuit, h]

theorem erases_loadComponents (cs : List (Component α)) : Erases (loadComponents cs) := by
  unfold loadComponents
  cases Circuit.ofComponents cs with
  | ok c => exact erases_loadCircuit c
  | error f =>
    -- the circuit without components is refused, and its error makes way for this one
    exact .comesBack .unloaded none (some f) fun s => rfl

theorem Erases.ne_failed {load : Changing α Unit} (h : Erases load) :
    load s ≠ .error (.failed f) s' := by
  intro hfailed
  cases h with
  | comesBack c equation lastError h => cases (h s).symm.trans hfailed
  | halts halt hne h =>
    cases (h s).symm.trans hfailed
    exact hne f rfl

/-- What two simulators share after the same load. -/
structure SameLoad (s₁ s₂ : Simulator α) : Prop where
  circuit_eq : s₁.circuit = s₂.circuit
  equation_eq : s₁.equation = s₂.equation
  state_eq : s₁.state = s₂.state
  solution_eq : s₁.solution = s₂.solution
  remaining_eq : s₁.remaining = s₂.remaining
  time_eq : s₁.time = s₂.time
  lastError_eq : s₁.lastError = s₂.lastError

/-- A load comes back from both simulators and leaves the same behind, or it comes back from
neither. -/
def LoadedAlike (load : Changing α Unit) (s₁ s₂ : Simulator α) : Prop :=
  (∃ s₁' s₂', load s₁ = .ok () s₁' ∧ load s₂ = .ok () s₂' ∧ SameLoad s₁' s₂') ∨
    ∃ halt, (∀ f, halt ≠ .failed f) ∧ load s₁ = .error halt s₁ ∧ load s₂ = .error halt s₂

theorem Erases.loadedAlike {load : Changing α Unit} (h : Erases load) (s₁ s₂ : Simulator α) :
    LoadedAlike load s₁ s₂ := by
  cases h with
  | comesBack c equation lastError h =>
    exact .inl ⟨_, _, h s₁, h s₂, ⟨rfl, rfl, rfl, rfl, rfl, rfl, rfl⟩⟩
  | halts halt hne h => exact .inr ⟨halt, hne, h s₁, h s₂⟩

/-- A description that one simulator accepts is accepted by every other, with the same result but
for the switch. -/
theorem loadDescription_alike (h : loadDescription d s₁ = .ok () s') (s₂ : Simulator α) :
    loadDescription d s₂ = .ok () { s' with running := s₂.running } := by
  rw [loadDescription_eq] at h ⊢
  split at h
  · rename_i cs _ _
    cases erases_loadComponents cs with
    | comesBack c equation lastError hload =>
      cases (hload _).symm.trans h
      exact hload _
    | halts halt _ hload => cases (hload _).symm.trans h
  · cases h
  · cases h

/-- What calls answer, with the simulator that each of them leaves behind. A call has a budget of
its own, and none follows one that does not come back. -/
def transcript :
    List (Nat × Call α) → Simulator α → List (Except (Halt α) (Option Nat) × Simulator α)
  | [], _ => []
  | (budget, call) :: calls, s =>
    match perform budget call s with
    | .ok answer s' => (.ok answer, s') :: transcript calls s'
    | .error (.failed f) s' => (.error (.failed f), s') :: transcript calls s'
    | .error halt s' => [(.error halt, s')]

/-- Once the switch has been set nobody can tell how it stood before. -/
theorem transcript_switched {call : Call α} (hcall : call = .start ∨ call = .stop)
    (s : Simulator α) (running : Bool) (budget : Nat) (calls : List (Nat × Call α)) :
    transcript ((budget, call) :: calls) { s with running } =
      transcript ((budget, call) :: calls) s := by
  obtain rfl | rfl := hcall <;> rfl

/-- Loading erases history. The same circuit, or the same components, are loaded alike into any two
simulators. The same description leaves them equal but for the switch, and calls that begin with
setting it have the same transcript. -/
theorem load_erases_history (s₁ s₂ : Simulator α) :
    (∀ c : Circuit α, LoadedAlike (loadCircuit c) s₁ s₂) ∧
    (∀ cs : List (Component α), LoadedAlike (loadComponents cs) s₁ s₂) ∧
    ∀ (d : Description α) (s₁' : Simulator α), loadDescription d s₁ = .ok () s₁' →
      ∃ s₂', loadDescription d s₂ = .ok () s₂' ∧ s₂' = { s₁' with running := s₂.running } ∧
        ∀ call, call = .start ∨ call = .stop → ∀ budget (calls : List (Nat × Call α)),
          transcript ((budget, call) :: calls) s₁' = transcript ((budget, call) :: calls) s₂' := by
  refine ⟨fun c => (erases_loadCircuit c).loadedAlike s₁ s₂,
    fun cs => (erases_loadComponents cs).loadedAlike s₁ s₂, fun d s₁' h => ?_⟩
  refine ⟨_, loadDescription_alike h s₂, rfl, fun call hcall budget calls => ?_⟩
  exact (transcript_switched hcall s₁' s₂.running budget calls).symm

/-- Settings with ticks of a millisecond. -/
def millisecondTicks : SimulatorSettings ℚ :=
  { (.standard : SimulatorSettings ℚ) with timestep := 1 / 1000 }

theorem validate_millisecondTicks : millisecondTicks.validate = .ok () :=
  eq_ok_of_isOk (by decide +kernel)

/-- A resistor from ground to the given nodes, of which there should be one. -/
def resistorTo (others : List Node) : Description ℚ :=
  ⟨millisecondTicks, [⟨⟨0⟩, none, .ground :: others, .resistor 1 .intact⟩]⟩

/-- A simulator whose circuit could not be solved takes up another one as a new simulator does. -/
theorem load_erases_history_contradicting :
    ∃ s s₁ s₂ : Simulator ℚ, Reachable s ∧ s.lastError.isSome ∧
      loadDescription (resistorTo [⟨1⟩]) .initial = .ok () s₁ ∧
      loadDescription (resistorTo [⟨1⟩]) s = .ok () s₂ ∧ SameLoad s₁ s₂ ∧
      ∀ calls, transcript ((1, .start) :: calls) s₁ = transcript ((1, .start) :: calls) s₂ := by
  obtain ⟨log, s, hrun, -, herr⟩ := run_contradicting
  obtain ⟨⟨⟩, hload⟩ := exists_of_succeeds
    (r := loadDescription (resistorTo [⟨1⟩]) (.initial : Simulator ℚ)) (by decide +kernel)
  obtain ⟨-, -, hdescription⟩ := load_erases_history .initial s
  obtain ⟨s₂, hs₂, rfl, hcalls⟩ := hdescription _ _ hload
  exact ⟨s, _, _, ⟨log, hrun⟩, herr, hload, hs₂, ⟨rfl, rfl, rfl, rfl, rfl, rfl, rfl⟩,
    hcalls .start (.inl rfl) 1⟩

/-! ## Refused calls -/

/-- Settings that are refused leave no trace. A description leaves none when its settings are
refused; when they are not but its components are, the settings and the solver are those of the
description and all else is as before. -/
theorem refused_call_leaves_rest :
    (∀ (settings : SimulatorSettings α) (s s' : Simulator α) f,
      configure settings s = .error (.failed f) s' → settings.validate = .error f ∧ s' = s) ∧
    ∀ (d : Description α) (s s' : Simulator α) f, loadDescription d s = .error (.failed f) s' →
      (d.simulation.validate = .error f ∧ s' = s ∨
        d.simulation.validate = .ok () ∧ d.toComponents = .error f ∧
          s' = { s with settings := d.simulation, newton := solverOf d.simulation }) ∧
      (s' = s ↔ d.simulation.validate = .error f ∨
        s.settings = d.simulation ∧ s.newton = solverOf d.simulation) := by
  constructor
  · intro settings s s' f h
    rw [configure_eq] at h
    split at h
    · cases h
    · rename_i hrefused
      cases h
      exact ⟨hrefused, rfl⟩
  intro d s s' f h
  rw [loadDescription_eq] at h
  split at h
  · exact absurd h (erases_loadComponents _).ne_failed
  · rename_i g hvalid hcs
    cases h
    refine ⟨.inr ⟨hvalid, hcs, rfl⟩, ?_⟩
    rw [hvalid]
    constructor
    · intro heq
      exact .inr ⟨congrArg settings heq.symm, congrArg newton heq.symm⟩
    · rintro (hrefused | ⟨hsettings, hnewton⟩)
      · cases hrefused
      · rw [configured, ← hnewton, ← hsettings]
  · rename_i hrefused
    cases h
    exact ⟨.inl ⟨hrefused, rfl⟩, iff_of_true rfl (.inl hrefused)⟩

theorem loadDescription_resistorTo (s : Simulator ℚ) :
    loadDescription (resistorTo []) s =
      .error (.failed (.topology (.terminalCount ⟨0⟩ .resistor 1)))
        (s.configured millisecondTicks) := by
  rw [loadDescription_eq, show (resistorTo []).simulation = millisecondTicks from rfl,
    validate_millisecondTicks]
  rfl

/-- A description that is refused for a resistor with one node has brought its settings. -/
theorem refused_description_not_undone :
    Reachable (.initial : Simulator ℚ) ∧ ∃ s : Simulator ℚ,
      loadDescription (resistorTo []) .initial =
        .error (.failed (.topology (.terminalCount ⟨0⟩ .resistor 1))) s ∧
      s.settings.timestep = 1 / 1000 ∧ s ≠ .initial := by
  refine ⟨.initial, _, loadDescription_resistorTo _, rfl, fun heq => ?_⟩
  exact absurd (congrArg (·.settings.timestep) heq) (by decide +kernel)

/-- Refused a second time, it leaves no trace. -/
theorem refused_call_leaves_rest_again :
    loadDescription (resistorTo []) (Simulator.initial.configured millisecondTicks) =
      .error (.failed (.topology (.terminalCount ⟨0⟩ .resistor 1)))
        (Simulator.initial.configured millisecondTicks) := by
  have h := loadDescription_resistorTo (Simulator.initial.configured millisecondTicks)
  obtain ⟨-, hrest⟩ := refused_call_leaves_rest (α := ℚ)
  obtain ⟨-, hsame⟩ := hrest _ _ _ _ h
  rwa [hsame.2 (.inr ⟨rfl, rfl⟩)] at h

end Nodal.Simulator
