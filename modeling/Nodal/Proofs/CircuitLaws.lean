import Nodal.Proofs.Elimination
import Nodal.Proofs.Residual
import Nodal.Proofs.Runs

/-! # Ticks of linear circuits obey the laws of circuits

Over exact arithmetic a solution of the tick equation leaves no defect in any row. The rows of nodes
are then Kirchhoff's current law, the rows of sources are the source voltages, and all other laws
hold by how the states are derived from the solution. -/

namespace Nodal
variable {α : Type} [ExactScalar α]

/-- A state derived from a solution obeys the device's law as soon as the source voltage is kept. -/
theorem Component.law_tickState {l : Layout} {d : Component α} (h : d.Fits l)
    (hchecked : d.device.Checked) (s : Solution α) (timestep time : α)
    (previous : ComponentState α)
    (hviolation : d.device.violation time (d.nodes.map s.voltage) = 0) :
    d.device.Law time (d.tickState s (d.companion? timestep previous)).voltages
      (d.tickState s (d.companion? timestep previous)).currents := by
  obtain ⟨id, name, device⟩ := d
  cases device with
  | resistor a b resistance fault =>
    have hr : fault.effective resistance ≠ 0 := ne_of_gt hchecked
    show s.voltage a - s.voltage b =
      (s.voltage a - s.voltage b) / fault.effective resistance * fault.effective resistance
    rw [div_mul_cancel₀ _ hr]
  | wire a b branch =>
    have hv : s.voltage b - s.voltage a = 0 := hviolation
    show s.voltage a = s.voltage b
    exact (sub_eq_zero.1 hv).symm
  | voltageSource a b waveform branch =>
    have hv : s.voltage b - s.voltage a - waveform.valueAt time = 0 := hviolation
    show s.voltage b - s.voltage a = waveform.valueAt time
    exact sub_eq_zero.1 hv
  | opAmp plus minus output gain branch =>
    have hv : s.voltage output - gain * (s.voltage plus - s.voltage minus) = 0 := hviolation
    show s.voltage output = gain * (s.voltage plus - s.voltage minus)
    exact sub_eq_zero.1 hv
  | capacitor a b capacitance =>
    simp only [companion?]
    cases (Companion.capacitor name capacitance timestep previous).toOption <;> trivial
  | inductor a b inductance =>
    simp only [companion?]
    cases (Companion.inductor name inductance timestep previous).toOption <;> trivial
  | currentSource a b current => exact rfl
  | diode anode cathode params => exact rfl
  | mosfet drain gate source channel params => exact rfl

namespace Circuit

theorem violation_eq_zero {d : Device α} (h : d.numSources = 0) (time : α) (voltages : List α) :
    d.violation time voltages = 0 := by
  cases d <;> first | rfl | exact absurd h Nat.one_ne_zero

section Solved
variable {l : Layout} {c : Circuit α} {timestep time : α} {previous : CircuitState α}
  {companions : Companions α} {e : Equation α}

/-- A solution of the tick equation of a linear circuit leaves nothing unbalanced in any row. -/
theorem totalRow_solved (h : Stamped l c timestep time previous companions e)
    (hlin : c.hasNonlinear = false) {x : List α} (hx : e.solve = .ok x) {i : Nat}
    (hi : i < l.size) :
    totalRow l c timestep time previous x i = 0 := by
  rw [← defect_linear h hlin, Equation.defect]
  obtain ⟨-, hrows⟩ := Matrix.solve_sound hx
  have hrow := hrows i (by rwa [h.equation.size_eq])
  rw [List.getD_eq_getElem?_getD, hrow, Option.getD_some, sub_self]

theorem netCurrent_solved (h : Stamped l c timestep time previous companions e)
    (hlin : c.hasNonlinear = false) {x : List α} (hx : e.solve = .ok x) :
    ∀ n ∈ c.nonGroundNodes, c.netCurrent (c.statesOf timestep previous x) n = 0 := by
  intro n hn
  rw [nonGroundNodes_eq l h.circuit] at hn
  obtain ⟨i, hi, rfl⟩ := List.mem_map.1 hn
  have hi := List.mem_range.1 hi
  rw [← totalRow_node h x hi]
  exact totalRow_solved h hlin hx (hi.trans_le (Nat.le_add_right ..))

theorem violation_solved (h : Stamped l c timestep time previous companions e)
    (hlin : c.hasNonlinear = false) {x : List α} (hx : e.solve = .ok x) {d : Component α}
    (hd : d ∈ c.components) :
    d.device.violation time (c.stateOf timestep previous x d).voltages = 0 := by
  by_cases hs : d.device.numSources = 0
  · exact violation_eq_zero hs time _
  · obtain ⟨k, hk⟩ := List.getElem?_of_mem (mem_sources hd hs)
    have hlt : k < l.numSources := by
      rw [← h.circuit.numSources_eq, ← h.circuit.numbered.length_sources]
      exact (List.getElem?_eq_some_iff.1 hk).1
    rw [← totalRow_branch h x hk]
    exact totalRow_solved h hlin hx (l.branchRow_lt hlt)

end Solved

end Circuit

/-- The solution of a linear circuit is found by elimination. -/
theorem Equation.solve_of_solveWith {ρ : Type} [RandomSource ρ α] {c : Circuit α} {e : Equation α}
    {budget : Nat} {newton newton' : NewtonSolver α ρ} {x : List α}
    (hlin : c.hasNonlinear = false)
    (h : e.solveWith c.nonlinear budget newton = .ok x newton') : e.solve = .ok x := by
  unfold solveWith at h
  rw [Circuit.nonlinear_eq_nil hlin] at h
  simp only [List.isEmpty_nil, if_true] at h
  split at h
  · rename_i hx
    cases h
    exact hx
  · cases h

namespace Simulator

theorem obeysLaws_of_tick {c : Circuit α} {e₀ : Equation α} {budget : Nat} {s s' : Simulator α}
    (hc : c.Numbered) (hs : c.staticEquation = .ok e₀) (hlin : c.hasNonlinear = false)
    (hholds : Holds c e₀ s) (ht : tick budget s = .ok () s') : s'.ObeysLaws := by
  obtain ⟨e₁, companions, e, x, state, newton, he, hstamp, hsolve, hstate, rfl⟩ := tick_inv ht
  obtain ⟨rfl, heq⟩ := hholds
  cases heq.symm.trans he
  obtain ⟨l, h⟩ := Circuit.stamped_of_stampTick hc hs hstamp
  have hx := Equation.solve_of_solveWith hlin hsolve
  rw [h.deriveState_eq] at hstate
  cases hstate
  refine ⟨Circuit.netCurrent_solved h hlin hx, fun d hd => ⟨_, h.get?_state x hd, ?_, ?_⟩⟩
  · exact d.voltages_tickState _ _
  · refine Component.law_tickState (h.circuit.component hd) (h.checked d hd) _ _ _ _ ?_
    have := Circuit.violation_solved h hlin hx hd
    rwa [Circuit.stateOf, Component.voltages_tickState] at this

/-- So does what an advance leaves behind when it has taken ticks and none has failed. -/
theorem obeysLaws_of_advance {c : Circuit α} {e₀ : Equation α} {budget n : Nat} {milliseconds : α}
    {s s' : Simulator α} (hc : c.Numbered) (hs : c.staticEquation = .ok e₀)
    (hlin : c.hasNonlinear = false) (hholds : Holds c e₀ s)
    (h : advance budget milliseconds s = .ok n s') (hn : 0 < n) (herr : s'.lastError = none) :
    s'.ObeysLaws := by
  obtain ⟨s₀, s₁, hs₀, ht, rfl⟩ := hholds.of_advance h hn herr
  obtain ⟨hnodes, hdevices⟩ := obeysLaws_of_tick hc hs hlin hs₀ ht
  exact ⟨hnodes, hdevices⟩

/-- Right after every successful tick since a linear circuit has been loaded, the stored state obeys
the laws of circuits. -/
theorem ticks_obey_laws {budget : Nat} {load : Call α} {calls : List (Call α)}
    {s₀ s₁ s : Simulator α} {r : Option Nat} (hload : load.isLoad)
    (hbuilt : ∀ c, load = .loadCircuit c → c.Built) (hloaded : perform budget load s₀ = .ok r s₁)
    (herr : s₁.lastError = none) (hlin : s₁.circuit.hasNonlinear = false)
    (hcalls : ∀ call ∈ calls, call.isLoad = false) (htick : TickIn budget calls s₁ s) :
    s.ObeysLaws := by
  obtain ⟨c, e, ⟨cs, hc⟩, he, hholds⟩ := Holds.of_load hload hbuilt hloaded herr
  obtain ⟨s₂, hs₂, ht⟩ := hholds.tickIn hcalls htick
  rw [hholds.circuit_eq] at hlin
  exact obeysLaws_of_tick (Circuit.numbered_of_ofComponents hc) he hlin hs₂ ht

/-- A source that charges a capacitor through a resistor. -/
def charging : List (Component ℚ) :=
  [⟨⟨0⟩, "V0", .voltageSource .ground ⟨1⟩ (.constant 6) none⟩,
    ⟨⟨1⟩, "R1", .resistor ⟨1⟩ ⟨2⟩ 2 .intact⟩,
    ⟨⟨2⟩, "C2", .capacitor ⟨2⟩ .ground 1⟩]

/-- The simulator with this circuit, before its first tick. -/
def beforeCharging : Simulator ℚ := after (perform 2 (.loadComponents charging) .initial)

theorem ticks_obey_laws_charging :
    ∃ s, TickIn 2 [.start, .advance 10] beforeCharging s ∧
      s.solution = [0, 6, 2 / 266667, 800000 / 266667] ∧ s.ObeysLaws := by
  obtain ⟨r, hloaded⟩ := exists_of_succeeds
    (r := perform 2 (.loadComponents charging) (.initial : Simulator ℚ)) (by decide +kernel)
  let s₁ := (after (perform 2 .start beforeCharging)).receive 10
  obtain ⟨⟨⟩, htick⟩ := exists_of_succeeds (r := tick 2 s₁) (by decide +kernel)
  have hrun : TickIn 2 [.start, .advance 10] beforeCharging (after (tick 2 s₁)) :=
    .later (.now (by decide +kernel) (by decide +kernel) (.done s₁) (by decide +kernel) htick)
  have herr : beforeCharging.lastError = none := Option.isNone_iff_eq_none.1 (by decide +kernel)
  refine ⟨_, hrun, by decide +kernel, ?_⟩
  exact ticks_obey_laws (by decide) (by rintro c ⟨⟩) hloaded herr
    (by decide +kernel) (by decide) hrun

end Simulator

end Nodal
