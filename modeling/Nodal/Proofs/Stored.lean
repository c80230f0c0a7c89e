import Nodal.Proofs.Branches
import Nodal.Proofs.Reachable
import Nodal.Proofs.TickEquation

/-! # What a simulator keeps stored

Whatever calls have been made, the equation that is held is the static equation of the circuit, and
the state has an entry for each component that agrees with the solution. When an error is kept, all
that is stored is zero. -/

namespace Nodal

/-! ## The state after a tick -/

namespace Circuit
variable {α : Type} [Scalar α] {c : Circuit α} {l : Layout}

theorem positive_of_stampTick {timestep time : α} {previous : CircuitState α}
    {companions : Companions α} {e e' : Equation α}
    (h : c.stampTick timestep time previous e = .ok companions e') :
    Scalar.isPositive timestep := by
  unfold stampTick at h
  split at h
  · assumption
  · cases h

theorem length_currents (d : Component α) (s : Solution α) :
    (d.currents s).length = d.device.numCurrents := by
  obtain ⟨id, name, device⟩ := d
  cases device <;> rfl

/-- Only a component with one current has a companion. -/
theorem numCurrents_of_made {d : Component α} {timestep : α} {previous : CircuitState α}
    {k : Companion α} (h : d.made timestep previous = some k) : d.device.numCurrents = 1 := by
  obtain ⟨id, name, device⟩ := d
  cases device with
  | opAmp plus minus output gain branch => cases h
  | _ => rfl

/-- An entry of the state agrees with the solution. -/
structure Agrees (voltage : Node → α) (d : Component α) (entry : ComponentId × ComponentState α) :
    Prop where
  id_eq : entry.1 = d.id
  voltages_eq : entry.2.voltages = d.nodes.map voltage
  length_currents : entry.2.currents.length = d.device.numCurrents

section Agreeing
omit [Scalar α]
variable {voltage : Node → α} {cs : List (Component α)} {state : CircuitState α}

theorem ids_of_agrees (h : List.Forall₂ (Agrees voltage) cs state) :
    state.map Prod.fst = cs.map (·.id) := by
  induction h with
  | nil => rfl
  | cons hd _ ih => rw [List.map_cons, List.map_cons, hd.id_eq, ih]

theorem get?_of_agrees (h : List.Forall₂ (Agrees voltage) cs state)
    (hnodup : (cs.map (·.id)).Nodup) {d : Component α} (hd : d ∈ cs) :
    ∃ shown, state.get? d.id = some shown ∧ Agrees voltage d (d.id, shown) := by
  induction h with
  | nil => cases hd
  | @cons d' entry cs state hentry _ ih =>
    obtain ⟨id, shown⟩ := entry
    obtain rfl : id = d'.id := hentry.id_eq
    rw [List.map_cons, List.nodup_cons] at hnodup
    rcases List.mem_cons.1 hd with rfl | hd
    · exact ⟨shown, List.lookup_cons_self, hentry⟩
    · have hne : d.id ≠ d'.id := fun heq => hnodup.1 (List.mem_map.2 ⟨d, hd, heq⟩)
      obtain ⟨shown', hget, hagrees⟩ := ih hnodup.2 hd
      refine ⟨shown', ?_, hagrees⟩
      rw [CircuitState.get?, List.lookup_cons, beq_false_of_ne hne]
      exact hget

end Agreeing

/-- The state that is derived after a tick agrees with the solution, component by component. -/
theorem StaticPart.agrees {blank e₀ e : Equation α} {timestep time : α} {previous : CircuitState α}
    {companions : Companions α} {solution : List α} {state : CircuitState α}
    (h : c.StaticPart l blank e₀)
    (hstamp : c.stampTick timestep time previous e₀ = .ok companions e)
    (hstate : c.deriveState solution companions = .ok state) :
    List.Forall₂ (Agrees (Solution.voltage ⟨solution, c.numNodes⟩)) c.components state := by
  obtain ⟨e', hstamp', -⟩ := h.stampTick_ok (positive_of_stampTick hstamp) time previous
  cases hstamp'.symm.trans hstamp
  refine ((List.forall₂_and_left _ _).2 ⟨fun d hd => hd, Outcome.mapM_eq_ok.1 hstate⟩).imp ?_
  rintro d entry ⟨hd, hentry⟩
  obtain ⟨shown, hshown, hentry⟩ := Outcome.bind_eq_ok.1 hentry
  cases hentry
  rw [componentState, lookup_filterMap h.fits.numbered.nodup_ids hd] at hshown
  cases hmade : d.made timestep previous with
  | none =>
    rw [hmade] at hshown
    cases hshown
    exact ⟨rfl, rfl, length_currents ..⟩
  | some k =>
    rw [hmade] at hshown
    obtain ⟨currents, hcurrents, hshown⟩ := Outcome.bind_eq_ok.1 hshown
    cases hshown
    refine ⟨rfl, rfl, ?_⟩
    rw [numCurrents_of_made hmade]
    unfold Companion.recover at hcurrents
    split at hcurrents <;> cases hcurrents
    rfl

end Circuit

/-! ## Ticks -/

theorem Equation.settings_solveWith {α ρ : Type} [Scalar α] [RandomSource ρ α] (e : Equation α)
    (elements : List (Component α)) (budget : Nat) (newton : NewtonSolver α ρ) :
    (after (e.solveWith elements budget newton)).settings = newton.settings := by
  unfold Equation.solveWith NewtonSolver.solve
  split
  · split <;> rfl
  · cases Newton.solve newton.settings (e.toSystem elements leakage) budget newton.draws <;> rfl

namespace Simulator
variable {α : Type} [Scalar α] {s s' s₁ : Simulator α} {budget : Nat}

/-- A tick that fails takes random numbers and leaves the rest alone. -/
theorem tick_failed_inv {halt : Halt α} (h : tick budget s = .error halt s') :
    ∃ newton : NewtonSolver α SplitMix64, newton.settings = s.newton.settings ∧
      s' = { s with newton } := by
  unfold tick at h
  split at h
  · cases h
    exact ⟨s.newton, rfl, rfl⟩
  rename_i e he
  simp only at h
  split at h
  · cases h
  rename_i halt' newton htick
  cases h
  refine ⟨newton, ?_, rfl⟩
  unfold solveTick at htick
  split at htick
  · cases htick
    rfl
  rename_i companions e' hstamp
  have hsettings := e'.settings_solveWith s.circuit.nonlinear budget s.newton
  split at htick
  · rename_i hsolve
    cases htick
    rw [hsolve] at hsettings
    exact hsettings
  · rename_i hsolve
    rw [hsolve] at hsettings
    split at htick
    · cases htick
      exact hsettings
    · cases htick

/-! ## What every run keeps -/

/-- The circuit is numbered, and the simulator holds its static equation, if there is one. -/
structure Consistent (s : Simulator α) : Prop where
  numbered : s.circuit.Numbered
  equation_eq : s.equation = s.circuit.staticEquation.toOption

/-- Each component has an entry in the state, which agrees with the solution. -/
def Stored (s : Simulator α) : Prop :=
  List.Forall₂ (Circuit.Agrees s.nodeVoltage) s.circuit.components s.state

/-- Nothing but zeros is stored. -/
structure Zeroed (s : Simulator α) : Prop where
  state : ∀ entry ∈ s.state, (∀ v ∈ entry.2.voltages, v = 0) ∧ ∀ i ∈ entry.2.currents, i = 0
  solution : ∀ v ∈ s.solution, v = 0

theorem zeroed_reset (s : Simulator α) : s.reset.Zeroed := by
  refine ⟨fun entry hentry => ?_, fun v hv => (List.mem_replicate.1 hv).2⟩
  obtain ⟨d, -, rfl⟩ := List.mem_map.1 hentry
  exact ⟨fun v hv => (List.mem_replicate.1 hv).2, fun i hi => (List.mem_replicate.1 hi).2⟩

theorem nodeVoltage_reset (s : Simulator α) (n : Node) : s.reset.nodeVoltage n = 0 := by
  simp only [nodeVoltage, reset, List.getD_eq_getElem?_getD, List.getElem?_replicate]
  split <;> rfl

theorem stored_reset (s : Simulator α) : s.reset.Stored := by
  refine List.forall₂_map_right_iff.2 (List.forall₂_same.2 fun d _ => ⟨rfl, ?_, ?_⟩)
  · show List.replicate d.nodes.length 0 = d.nodes.map s.reset.nodeVoltage
    rw [funext s.nodeVoltage_reset, List.map_const', Component.nodes]
  · exact List.length_replicate

theorem Ticks.induction {P : Simulator α → Prop} {threshold : α} {log : List (Event α)}
    (hspend : ∀ s, P s → P s.spend)
    (htick : ∀ {s s'}, P s → tick budget s = .ok () s' → P s') (h : Ticks threshold budget s log s')
    (hs : P s) : P s' := by
  induction h with
  | done s => exact hs
  | more _ ht _ ih => exact ih (hspend _ (htick hs ht))

namespace Consistent

theorem staticEquation_eq {e : Equation α} (hs : s.Consistent) (he : s.equation = some e) :
    s.circuit.staticEquation = .ok e := by
  have h := hs.equation_eq.symm.trans he
  cases hc : s.circuit.staticEquation with
  | ok e' =>
    rw [hc] at h
    exact congrArg Except.ok (Option.some.inj h)
  | error halt =>
    rw [hc] at h
    cases h

theorem of_eq (hs : s.Consistent) (hc : s'.circuit = s.circuit) (he : s'.equation = s.equation) :
    s'.Consistent :=
  ⟨hc ▸ hs.numbered, by rw [he, hc, hs.equation_eq]⟩

theorem receive (hs : s.Consistent) (milliseconds : α) : (s.receive milliseconds).Consistent :=
  hs.of_eq rfl rfl

theorem tick (hs : s.Consistent) (h : Simulator.tick budget s = .ok () s') : s'.Consistent := by
  obtain ⟨e₀, companions, e, x, state, newton, -, -, -, -, rfl⟩ := tick_inv h
  exact hs.of_eq rfl rfl

/-- What a tick stores agrees with its solution, whatever was stored before. -/
theorem stored_tick (hs : s.Consistent) (h : Simulator.tick budget s = .ok () s') :
    s'.Stored := by
  obtain ⟨e₀, companions, e, x, state, newton, he, hstamp, -, hstate, rfl⟩ := tick_inv h
  obtain ⟨l, blank, hpart⟩ := Circuit.staticPart hs.numbered (hs.staticEquation_eq he)
  exact hpart.agrees hstamp hstate

theorem ticks {threshold : α} {log : List (Event α)} (hs : s.Consistent)
    (h : Ticks threshold budget s log s') : s'.Consistent :=
  h.induction (fun _ hs => hs.of_eq rfl rfl) tick hs

/-- Every step keeps the circuit with its equation, or replaces both. -/
theorem step {log : List (Event α)} (hs : s.Consistent) (h : Step s log s') : s'.Consistent := by
  cases h with
  | idle => exact hs
  | configured => exact hs.of_eq rfl rfl
  | switched => exact hs.of_eq rfl rfl
  | loaded _ hc he => exact ⟨hc, (congrArg Except.toOption he).symm⟩
  | refused _ _ hc hf => exact ⟨hc, (congrArg Except.toOption hf).symm⟩
  | waited => exact hs.of_eq rfl rfl
  | advanced _ _ _ hticks _ =>
    have h₁ := (hs.receive _).ticks hticks
    exact h₁.of_eq rfl rfl
  | failed _ _ hticks _ ht =>
    have h₁ := (hs.receive _).ticks hticks
    obtain ⟨newton, -, rfl⟩ := tick_failed_inv ht
    exact h₁.of_eq rfl rfl

end Consistent

/-- What calls leave behind, whether they succeed or fail. -/
structure Coherent (s : Simulator α) : Prop where
  /-- The equation of the circuit, which no tick changes. -/
  equation_eq : s.equation = s.circuit.staticEquation.toOption
  /-- One entry for each component. -/
  ids : s.state.map Prod.fst = s.circuit.components.map (·.id)
  nodup_ids : (s.circuit.components.map (·.id)).Nodup
  entry : ∀ d ∈ s.circuit.components, ∃ shown, s.componentState? d.id = some shown ∧
    shown.voltages = d.nodes.map s.nodeVoltage ∧ shown.currents.length = d.device.numCurrents
  /-- After an error nothing is left. -/
  zeroed : s.lastError ≠ none → s.Zeroed

theorem Stored.ticks {threshold : α} {log : List (Event α)} (hs : s.Consistent)
    (hstored : s.Stored) (h : Ticks threshold budget s log s') : s'.Stored :=
  (h.induction (P := fun s => s.Consistent ∧ s.Stored) (fun _ hs => ⟨hs.1.of_eq rfl rfl, hs.2⟩)
    (fun hs ht => ⟨hs.1.tick ht, hs.1.stored_tick ht⟩) ⟨hs, hstored⟩).2

theorem Stored.step {log : List (Event α)} (hs : s.Consistent) (hstored : s.Stored)
    (h : Step s log s') : s'.Stored := by
  cases h with
  | idle => exact hstored
  | configured => exact hstored
  | switched => exact hstored
  | loaded => exact stored_reset _
  | refused => exact stored_reset _
  | waited => exact hstored
  | advanced _ _ _ hticks _ =>
    have h₁ := Stored.ticks (hs.receive _) hstored hticks
    exact h₁
  | failed => exact stored_reset _

theorem zeroed_step {log : List (Event α)} (hs : s.lastError ≠ none → s.Zeroed)
    (h : Step s log s') : s'.lastError ≠ none → s'.Zeroed := by
  cases h with
  | idle => exact hs
  | configured => exact fun herr => ⟨(hs herr).state, (hs herr).solution⟩
  | switched => exact fun herr => ⟨(hs herr).state, (hs herr).solution⟩
  | loaded => exact fun herr => absurd rfl herr
  | refused => exact fun _ => zeroed_reset _
  | waited => exact fun herr => ⟨(hs herr).state, (hs herr).solution⟩
  | advanced => exact fun herr => absurd rfl herr
  | failed => exact fun _ => ⟨(zeroed_reset _).state, (zeroed_reset _).solution⟩

/-- Every simulator that calls can lead to is coherent. -/
theorem reachable_coherent (h : Reachable s) : s.Coherent := by
  obtain ⟨log, h⟩ := h
  obtain ⟨hs, hstored, hzeroed⟩ : s.Consistent ∧ s.Stored ∧ (s.lastError ≠ none → s.Zeroed) := by
    refine h.induction (P := fun _ s => s.Consistent ∧ s.Stored ∧ (s.lastError ≠ none → s.Zeroed))
      ⟨⟨Circuit.numbered_unloaded, rfl⟩, .nil, fun herr => absurd rfl herr⟩ ?_
    rintro log s log' s' ⟨hs, hstored, hzeroed⟩ h
    exact ⟨hs.step h, hstored.step hs h, zeroed_step hzeroed h⟩
  refine ⟨hs.equation_eq, Circuit.ids_of_agrees hstored, hs.numbered.nodup_ids, fun d hd => ?_,
    hzeroed⟩
  obtain ⟨shown, hget, hagrees⟩ := Circuit.get?_of_agrees hstored hs.numbered.nodup_ids hd
  exact ⟨shown, hget, hagrees.voltages_eq, hagrees.length_currents⟩

/-- Two sources that want different voltages at the same node. -/
def contradicting : List (Component ℚ) :=
  [⟨⟨0⟩, "V0", .voltageSource .ground ⟨1⟩ (.constant 1) none⟩,
    ⟨⟨1⟩, "V1", .voltageSource .ground ⟨1⟩ (.constant 2) none⟩,
    ⟨⟨2⟩, "R2", .resistor ⟨1⟩ .ground 1 .intact⟩]

/-- Their circuit is loaded, and its first tick fails. -/
theorem run_contradicting :
    ∃ (log : List (Event ℚ)) (s : Simulator ℚ), Run log s ∧ s.isReady ∧ s.lastError.isSome := by
  have hfound :
      (match replay 2 [.loadComponents contradicting, .start, .advance 10] [] .initial with
        | some (_, s) => s.isReady && s.lastError.isSome
        | none => false) = true := by decide +kernel
  split at hfound
  · rename_i log s hreplay
    obtain ⟨hready, herr⟩ := Bool.and_eq_true_iff.1 hfound
    exact ⟨log, s, Run.initial.replay (by simp [Call.Proper]) hreplay, hready, herr⟩
  · cases hfound

theorem reachable_coherent_contradicting :
    ∃ s : Simulator ℚ, Reachable s ∧ s.isReady ∧ s.lastError.isSome ∧ s.Coherent := by
  obtain ⟨log, s, hrun, hready, herr⟩ := run_contradicting
  exact ⟨s, ⟨log, hrun⟩, hready, herr, reachable_coherent ⟨log, hrun⟩⟩

/-! ## The ticks of a run -/

/-- A property of what is stored: it holds of zeros, ticks keep it, and it does not depend on
anything else. -/
structure Lasting (P : Simulator α → Prop) : Prop where
  initial : P .initial
  reset : ∀ s : Simulator α, s.Consistent → P s.reset
  frame : ∀ s s' : Simulator α, s'.circuit = s.circuit → s'.equation = s.equation →
    s'.state = s.state → s'.solution = s.solution → s'.time = s.time → P s → P s'
  tick : ∀ {budget : Nat} {s s' : Simulator α}, s.Consistent → P s →
    Simulator.tick budget s = .ok () s' → P s'

/-- The tick in the log has been taken, and `P` holds before it. -/
def TickedWith (P : Simulator α → Prop) (event : Event α) : Prop :=
  ∀ before after, event = .ticked before after →
    before.Consistent ∧ before.Stored ∧ P before ∧
      ∃ budget, Simulator.tick budget before = .ok () after

namespace Lasting
variable {P : Simulator α → Prop}

theorem ticks {threshold : α} {log : List (Event α)} (hP : Lasting P) (hs : s.Consistent)
    (hstored : s.Stored) (hp : P s) (h : Ticks threshold budget s log s') :
    P s' ∧ ∀ event ∈ log, TickedWith P event := by
  induction h with
  | done s => exact ⟨hp, List.forall_mem_nil _⟩
  | @more s s₁ s' log hle ht _ ih =>
    have hstored₁ : s₁.Stored := hs.stored_tick ht
    obtain ⟨hp', hlog⟩ := ih ((hs.tick ht).of_eq rfl rfl) hstored₁
      (hP.frame s₁ _ rfl rfl rfl rfl rfl (hP.tick hs hp ht))
    refine ⟨hp', List.forall_mem_cons.2 ⟨?_, hlog⟩⟩
    rintro before after ⟨⟩
    exact ⟨hs, hstored, hp, budget, ht⟩

theorem step {log : List (Event α)} (hP : Lasting P) (hs : s.Consistent) (hstored : s.Stored)
    (hp : P s) (h : Step s log s') : P s' ∧ ∀ event ∈ log, TickedWith P event := by
  have hconsistent := hs.step h
  have hreceive : ∀ milliseconds, P (s.receive milliseconds) := fun milliseconds =>
    hP.frame s _ rfl rfl rfl rfl rfl hp
  cases h with
  | idle => exact ⟨hp, List.forall_mem_nil _⟩
  | configured => exact ⟨hP.frame s _ rfl rfl rfl rfl rfl hp, List.forall_mem_nil _⟩
  | switched => exact ⟨hP.frame s _ rfl rfl rfl rfl rfl hp, List.forall_mem_nil _⟩
  | loaded => exact ⟨hP.reset _ (hconsistent.of_eq rfl rfl), by simp [TickedWith]⟩
  | refused => exact ⟨hP.reset _ (hconsistent.of_eq rfl rfl), by simp [TickedWith]⟩
  | waited milliseconds => exact ⟨hreceive milliseconds, List.forall_mem_nil _⟩
  | @advanced s s' milliseconds budget log _ _ _ hticks _ =>
    obtain ⟨hp', hlog⟩ := hP.ticks (hs.receive _) hstored (hreceive _) hticks
    exact ⟨hP.frame s' _ rfl rfl rfl rfl rfl hp', hlog⟩
  | @failed s s₁ s₂ milliseconds budget log f _ _ hticks _ _ =>
    obtain ⟨-, hlog⟩ := hP.ticks (hs.receive _) hstored (hreceive _) hticks
    refine ⟨hP.frame s₂.reset _ rfl rfl rfl rfl rfl
      (hP.reset s₂ (hconsistent.of_eq rfl rfl)), fun event hevent => ?_⟩
    rcases List.mem_append.1 hevent with hevent | hevent
    · exact hlog event hevent
    · rw [List.mem_singleton.1 hevent]
      rintro before after ⟨⟩

/-- What lasts holds after a run and before each of its ticks. -/
theorem run {log : List (Event α)} (hP : Lasting P) (h : Run log s) :
    P s ∧ ∀ event ∈ log, TickedWith P event := by
  suffices hrun : s.Consistent ∧ s.Stored ∧ P s ∧ ∀ event ∈ log, TickedWith P event from
    hrun.2.2
  refine h.induction (P := fun log s => s.Consistent ∧ s.Stored ∧ P s ∧
    ∀ event ∈ log, TickedWith P event)
    ⟨⟨Circuit.numbered_unloaded, rfl⟩, .nil, hP.initial, List.forall_mem_nil _⟩ ?_
  rintro log s log' s' ⟨hs, hstored, hp, hlog⟩ h
  obtain ⟨hp', hlog'⟩ := hP.step hs hstored hp h
  refine ⟨hs.step h, hstored.step hs h, hp', fun event hevent => ?_⟩
  rcases List.mem_append.1 hevent with hevent | hevent
  · exact hlog event hevent
  · exact hlog' event hevent

theorem reachable (hP : Lasting P) (h : Reachable s) : P s := by
  obtain ⟨log, hrun⟩ := h
  exact (hP.run hrun).1

theorem ticked {log : List (Event α)} {before after : Simulator α} (hP : Lasting P) (h : Run log s)
    (hmem : .ticked before after ∈ log) :
    before.Consistent ∧ before.Stored ∧ P before ∧
      ∃ budget, Simulator.tick budget before = .ok () after :=
  (hP.run h).2 _ hmem before after rfl

end Lasting

end Simulator

end Nodal
