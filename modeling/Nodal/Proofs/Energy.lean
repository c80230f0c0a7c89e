import Mathlib.Tactic.LinearCombination
import Nodal.Proofs.CircuitLaws
import Nodal.Proofs.Grounding
import Nodal.Proofs.Trapezoid

/-! # The balance of energy

The voltages of one state and the currents of another, as long as the currents balance at every
node, give powers that add up to zero over all components (`Circuit.tellegen`). For the states
before and after a tick this says that what capacitors and inductors gain, which the trapezoidal
rule turns into work, comes from the other components. -/

namespace Nodal
variable {α : Type} [ExactScalar α]

/-! ## Powers -/

theorem sum_map_comm {ι κ : Type} (f : ι → κ → α) (xs : List ι) (ys : List κ) :
    (xs.map fun x => (ys.map fun y => f x y).sum).sum =
      (ys.map fun y => (xs.map fun x => f x y).sum).sum := by
  induction xs with
  | nil => simp
  | cons x xs ih => simp only [List.map_cons, List.sum_cons, ih, List.sum_map_add]

omit [ExactScalar α] in
theorem sum_filter_add {ι β : Type} [AddCommMonoid β] (p : ι → Bool) (f : ι → β) (xs : List ι) :
    ((xs.filter p).map f).sum + ((xs.filter (!p ·)).map f).sum = (xs.map f).sum := by
  rw [sum_filter, sum_filter, ← List.sum_map_add]
  congr 1
  refine List.map_congr_left fun x _ => ?_
  cases p x <;> simp

namespace Device

/-- The power that the device takes in along its paths, at these node voltages. -/
def power (voltage : Node → α) (d : Device α) (currents : List α) : α :=
  (List.zipWith (fun (a, b) i => (voltage a - voltage b) * i) d.paths currents).sum

section Leaving
variable {voltage : Node → α} {nodes : List Node}

/-- A node off the list is ground, where the voltage is zero. -/
theorem sum_voltage_at (hnodup : nodes.Nodup) (hground : voltage .ground = 0) {a : Node}
    (ha : a ∈ nodes ∨ a = .ground) (i : α) :
    (nodes.map fun n => voltage n * if a = n then i else 0).sum = voltage a * i := by
  simp only [mul_ite, mul_zero]
  by_cases hmem : a ∈ nodes
  · exact sum_ite_unique (fun n => voltage n * i) hnodup hmem fun n _ => eq_comm
  · have hzero : ∀ n ∈ nodes, (if a = n then voltage n * i else 0) = 0 := by
      intro n hn
      refine if_neg fun heq => hmem ?_
      rwa [heq]
    rw [List.map_congr_left hzero, ha.resolve_left hmem, hground]
    simp

/-- A current along a path leaves the one node and arrives at the other. -/
theorem sum_voltage_path (hnodup : nodes.Nodup) (hground : voltage .ground = 0) {a b : Node}
    (ha : a ∈ nodes ∨ a = .ground) (hb : b ∈ nodes ∨ b = .ground) (i : α) :
    (nodes.map fun n => voltage n * ((if a = n then i else 0) - if b = n then i else 0)).sum =
      (voltage a - voltage b) * i := by
  have hsplit : (nodes.map fun n => voltage n * if a = n then i else 0).sum =
      (nodes.map fun n => voltage n * ((if a = n then i else 0) - if b = n then i else 0)).sum +
        (nodes.map fun n => voltage n * if b = n then i else 0).sum := by
    rw [← List.sum_map_add]
    congr 1
    exact List.map_congr_left fun n _ => by ring
  rw [sum_voltage_at hnodup hground ha, sum_voltage_at hnodup hground hb] at hsplit
  linarith

theorem sum_voltage_mul_leaving (hnodup : nodes.Nodup) (hground : voltage .ground = 0)
    {d : Device α} (hpaths : ∀ p ∈ d.paths, (p.1 ∈ nodes ∨ p.1 = .ground) ∧
      (p.2 ∈ nodes ∨ p.2 = .ground)) (currents : List α) :
    (nodes.map fun n => voltage n * d.leaving currents n).sum = d.power voltage currents := by
  unfold leaving power
  generalize d.paths = paths at hpaths
  induction paths generalizing currents with
  | nil => simp
  | cons p paths ih =>
    cases currents with
    | nil => simp
    | cons i currents =>
      obtain ⟨⟨ha, hb⟩, hpaths⟩ := List.forall_mem_cons.1 hpaths
      simp only [List.zipWith_cons_cons, List.sum_cons, mul_add, List.sum_map_add,
        ih currents hpaths]
      rw [sum_voltage_path hnodup hground ha hb]

end Leaving

theorem leaving_zero {d : Device α} {currents : List α} (h : ∀ i ∈ currents, i = 0) (n : Node) :
    d.leaving currents n = 0 := by
  unfold leaving
  generalize d.paths = paths
  induction paths generalizing currents with
  | nil => rfl
  | cons p paths ih =>
    cases currents with
    | nil => rfl
    | cons i currents =>
      obtain ⟨hi, hcurrents⟩ := List.forall_mem_cons.1 h
      simp [hi, ih hcurrents]

end Device

namespace Circuit
variable {l : Layout} {c : Circuit α}

omit [ExactScalar α] in
theorem nodup_nonGroundNodes (h : c.Fits l) : c.nonGroundNodes.Nodup := by
  have hlimit : Equation.sizeLimit < nodeLimit := by decide
  have hnodes := h.numNodes_eq ▸ l.numNodes_lt
  exact nodup_nodes (by omega)

omit [ExactScalar α] in
theorem mem_nonGroundNodes {n : Node} (hn : n.number.toNat < c.numNodes) :
    n ∈ c.nonGroundNodes ∨ n = .ground := by
  by_cases hzero : n.number.toNat = 0
  · right
    exact Node.eq_ground hzero
  · left
    refine List.mem_map.2 ⟨n.number.toNat, List.mem_range'_1.2 (by omega), ?_⟩
    rw [UInt64.ofNat_toNat]

/-- Balanced currents and the voltages of any solution give powers that add up to zero. -/
theorem tellegen (h : c.Fits l) {voltage : Node → α} (hground : voltage .ground = 0)
    {state : CircuitState α} (hbalanced : ∀ n ∈ c.nonGroundNodes, c.netCurrent state n = 0) :
    (c.components.map fun d =>
      d.device.power voltage ((state.get? d.id).getD .empty).currents).sum = 0 := by
  have hpower : ∀ d ∈ c.components,
      d.device.power voltage ((state.get? d.id).getD .empty).currents =
        (c.nonGroundNodes.map fun n =>
          voltage n * d.device.leaving ((state.get? d.id).getD .empty).currents n).sum := by
    intro d hd
    refine (Device.sum_voltage_mul_leaving (nodup_nonGroundNodes h) hground (fun p hp => ?_) _).symm
    obtain ⟨ha, hb⟩ := Device.paths_lt (h.component hd) p hp
    rw [← h.numNodes_eq] at ha hb
    exact ⟨mem_nonGroundNodes ha, mem_nonGroundNodes hb⟩
  have hnode : ∀ n ∈ c.nonGroundNodes, (c.components.map fun d =>
      voltage n * d.device.leaving ((state.get? d.id).getD .empty).currents n).sum = 0 := by
    intro n hn
    rw [List.sum_map_mul_left]
    have hnet := hbalanced n hn
    unfold netCurrent at hnet
    rw [hnet, mul_zero]
  rw [List.map_congr_left hpower, sum_map_comm, List.map_congr_left hnode]
  simp

end Circuit

/-! ## Devices with two nodes -/

namespace Device

/-- Resistors, wires, sources, capacitors and inductors: one current between two nodes. -/
def isSimple : Device α → Bool
  | opAmp .. | diode .. | mosfet .. => false
  | _ => true

def isStorage : Device α → Bool
  | capacitor .. | inductor .. => true
  | _ => false

/-- A source of voltage or current. -/
def isSupply : Device α → Bool
  | voltageSource .. | currentSource .. => true
  | _ => false

omit [ExactScalar α] in
theorem pair_of_isSimple {d : Device α} (h : d.isSimple) :
    ∃ a b, d.nodes = [a, b] ∧ d.paths = [(a, b)] ∧ d.numCurrents = 1 := by
  cases d <;> first | exact ⟨_, _, rfl, rfl, rfl⟩ | cases h

omit [ExactScalar α] in
theorem isNonlinear_of_isSimple {d : Device α} (h : d.isSimple) : d.isNonlinear = false := by
  cases d <;> first | rfl | cases h

end Device

namespace Simulator
variable {s s' t before after : Simulator α} {budget : Nat} {d : Component α}

/-- Only simple devices. -/
def Simple (s : Simulator α) : Prop := ∀ d ∈ s.circuit.components, d.device.isSimple

omit [ExactScalar α] in
theorem Simple.hasNonlinear_eq (h : s.Simple) : s.circuit.hasNonlinear = false := by
  refine List.any_eq_false.2 fun d hd => ?_
  rw [Component.isNonlinear, Device.isNonlinear_of_isSimple (h d hd)]
  exact Bool.false_ne_true

/-- The voltage across a simple component in one state and its current in another. -/
theorem power_eq (hs : s.Stored) (ht : t.Stored) (hc : s.circuit.Numbered)
    (hcircuit : t.circuit = s.circuit) (hd : d ∈ s.circuit.components)
    (hsimple : d.device.isSimple) :
    d.device.power s.nodeVoltage ((t.state.get? d.id).getD .empty).currents =
      s.across d.id * t.through d.id := by
  obtain ⟨a, b, hnodes, hpaths, hone⟩ := Device.pair_of_isSimple hsimple
  obtain ⟨i, hs⟩ := hs.pair hc hd hnodes hone
  obtain ⟨j, ht⟩ := ht.pair (hcircuit ▸ hc) (hcircuit ▸ hd) hnodes hone
  have hget : t.state.get? d.id = _ := ht
  rw [across, through, hs, ht, hget, Device.power, hpaths]
  simp [ComponentState.voltageAcross, ComponentState.current]

/-! ## What is conserved -/

/-- The stored currents balance at every node, and the voltages of resistors and wires are those of
their currents. -/
structure Conserving (s : Simulator α) : Prop where
  ground : s.nodeVoltage .ground = 0
  balanced : ∀ n ∈ s.circuit.nonGroundNodes, s.circuit.netCurrent s.state n = 0
  resistor : ∀ d ∈ s.circuit.components, ∀ a b resistance fault,
    d.device = .resistor a b resistance fault →
      s.across d.id = s.through d.id * fault.effective resistance
  wire : ∀ d ∈ s.circuit.components, ∀ a b branch, d.device = .wire a b branch → s.across d.id = 0

/-- Where nothing flows everything balances. -/
theorem Zeroed.conserving (h : s.Zeroed) : s.Conserving := by
  have hground : s.nodeVoltage .ground = 0 := by
    rw [nodeVoltage, List.getD_eq_getElem?_getD]
    cases hget : s.solution[Node.ground.number.toNat]? with
    | none => rfl
    | some v => exact h.solution v (List.mem_of_getElem? hget)
  refine ⟨hground, ?_, ?_, ?_⟩
  · intro n _
    refine List.sum_eq_zero fun v hv => ?_
    obtain ⟨d, -, rfl⟩ := List.mem_map.1 hv
    refine Device.leaving_zero (fun i hi => ?_) n
    cases hget : s.state.get? d.id with
    | none =>
      rw [hget] at hi
      cases hi
    | some shown =>
      rw [hget] at hi
      obtain ⟨_, _, hstate, -⟩ := List.lookup_eq_some_iff.1 hget
      exact (h.state (d.id, shown) (by rw [hstate]; simp)).2 i hi
  · intro d _ a b resistance fault _
    rw [(h.shown d.id).1, (h.shown d.id).2, zero_mul]
  · intro d _ a b branch _
    exact (h.shown d.id).1

/-- The law of a simple device, in terms of the voltage across it and the current through it. -/
theorem ObeysLaws.law (h : s.ObeysLaws) (hs : s.Stored) (hc : s.circuit.Numbered)
    (hd : d ∈ s.circuit.components) (hsimple : d.device.isSimple) :
    ∃ v w, s.across d.id = v - w ∧ d.device.Law s.time [v, w] [s.through d.id] := by
  obtain ⟨a, b, hnodes, -, hone⟩ := Device.pair_of_isSimple hsimple
  obtain ⟨i, hshown⟩ := hs.pair hc hd hnodes hone
  obtain ⟨state, hstate, -, hlaw⟩ := h.lawful d hd
  cases hshown.symm.trans hstate
  rw [across, through, hshown]
  exact ⟨_, _, rfl, hlaw⟩

/-- After a tick the laws of circuits hold. -/
theorem conserving_tick (hs : s.Consistent) (hlin : s.circuit.hasNonlinear = false)
    (ht : tick budget s = .ok () s') : s'.Conserving := by
  obtain ⟨e₀, companions, e, x, state, newton, he, hstamp, -, hstate, heq⟩ := tick_inv ht
  have hlaws : s'.ObeysLaws :=
    obeysLaws_of_tick hs.numbered (hs.staticEquation_eq he) hlin ⟨rfl, he⟩ ht
  have hground : s'.nodeVoltage .ground = 0 := by
    subst heq
    rfl
  have hstored : s'.Stored := hs.stored_tick ht
  have hnumbered := (hs.tick ht).numbered
  refine ⟨hground, hlaws.balanced, ?_, ?_⟩
  · intro d hd a b resistance fault hdevice
    obtain ⟨v, w, hacross, hlaw⟩ := hlaws.law hstored hnumbered hd (by rw [hdevice]; rfl)
    rw [hdevice] at hlaw
    rw [hacross]
    exact hlaw
  · intro d hd a b branch hdevice
    obtain ⟨v, w, hacross, hlaw⟩ := hlaws.law hstored hnumbered hd (by rw [hdevice]; rfl)
    rw [hdevice] at hlaw
    rw [hacross]
    exact sub_eq_zero.2 hlaw

/-- Whenever the circuit is linear, what is stored conserves energy. -/
theorem lasting_conserving :
    Lasting fun s : Simulator α => s.circuit.hasNonlinear = false → s.Conserving where
  initial _ := Zeroed.conserving ⟨nofun, by simp [initial]⟩
  reset s _ _ := (zeroed_reset s).conserving
  frame s s' hcircuit _ hstate hsolution _ hs hlin := by
    have hs := hs (hcircuit ▸ hlin)
    refine ⟨?_, ?_, ?_, ?_⟩
    · rw [nodeVoltage, hsolution]
      exact hs.ground
    · rw [hcircuit, hstate]
      exact hs.balanced
    · simp only [across, through, componentState?, hcircuit, hstate]
      exact hs.resistor
    · simp only [across, componentState?, hcircuit, hstate]
      exact hs.wire
  tick hs _ ht hlin := conserving_tick hs (circuit_of_tick ht ▸ hlin) ht

/-- Voltages of one state with currents of another. -/
theorem sum_across_mul_through (hs : s.Consistent) (hsimple : s.Simple)
    (hcircuit : t.circuit = s.circuit) (hsstored : s.Stored) (htstored : t.Stored)
    (hsc : s.Conserving) (htc : t.Conserving) {e : Equation α} (he : s.equation = some e) :
    (s.circuit.components.map fun d => s.across d.id * t.through d.id).sum = 0 := by
  obtain ⟨l, blank, hpart⟩ := Circuit.staticPart hs.numbered (hs.staticEquation_eq he)
  rw [← Circuit.tellegen hpart.fits hsc.ground (hcircuit ▸ htc.balanced)]
  congr 1
  refine List.map_congr_left fun d hd => ?_
  exact (power_eq hsstored htstored hs.numbered hcircuit hd (hsimple d hd)).symm

/-! ## Energy -/

/-- What a capacitor or an inductor has gained in energy from one state to another. -/
def gained (before after : Simulator α) (d : Component α) : α :=
  match d.device with
  | .capacitor _ _ capacitance =>
    capacitance / 2.0 * (after.across d.id ^ 2 - before.across d.id ^ 2)
  | .inductor _ _ inductance =>
    inductance / 2.0 * (after.through d.id ^ 2 - before.through d.id ^ 2)
  | _ => 0

/-- The mean of the voltages before and after with the mean of the currents. -/
def meanPower (before after : Simulator α) (d : Component α) : α :=
  (after.across d.id + before.across d.id) / 2.0 *
    ((after.through d.id + before.through d.id) / 2.0)

/-- The trapezoidal rule turns the work done on a capacitor or an inductor into energy. -/
theorem gained_eq (hs : before.Consistent) (ht : tick budget before = .ok () after)
    (hd : d ∈ before.circuit.components) (hstorage : d.device.isStorage) :
    gained before after d = before.settings.timestep * meanPower before after d := by
  unfold gained meanPower
  rw [Scalar.two_exact]
  cases hdevice : d.device with
  | capacitor a b capacitance =>
    have hrule := (Sums.capacitor hdevice).tick hs hd ht
    simp only at hrule ⊢
    linear_combination (after.across d.id + before.across d.id) / 2 * hrule
  | inductor a b inductance =>
    have hrule := (Sums.inductor hdevice).tick hs hd ht
    simp only at hrule ⊢
    linear_combination (after.through d.id + before.through d.id) / 2 * hrule
  | _ => rw [hdevice] at hstorage; cases hstorage

/-- Over all components the mean powers add up to zero. -/
theorem sum_meanPower (hs : before.Consistent) (hsimple : before.Simple)
    (hstored : before.Stored) (hconserving : before.Conserving)
    (ht : tick budget before = .ok () after) :
    (before.circuit.components.map (meanPower before after)).sum = 0 := by
  have hstored' : after.Stored := hs.stored_tick ht
  have hconserving' := conserving_tick hs hsimple.hasNonlinear_eq ht
  have hconsistent' := hs.tick ht
  obtain ⟨e₀, companions, e, x, state, newton, he, -, -, -, hafter⟩ := tick_inv ht
  have hcircuit := circuit_of_tick ht
  have he' : after.equation = some e₀ := by rw [hafter, he]
  have hsimple' : after.Simple := by
    unfold Simple
    rw [hcircuit]
    exact hsimple
  have hold := sum_across_mul_through hs hsimple rfl hstored hstored hconserving hconserving he
  have hmixed := sum_across_mul_through hs hsimple hcircuit hstored hstored' hconserving
    hconserving' he
  have hmixed' := sum_across_mul_through hconsistent' hsimple' hcircuit.symm hstored' hstored
    hconserving' hconserving he'
  have hnew := sum_across_mul_through hconsistent' hsimple' rfl hstored' hstored' hconserving'
    hconserving' he'
  rw [hcircuit] at hmixed' hnew
  have hterm : ∀ d ∈ before.circuit.components, meanPower before after d =
      (after.across d.id * after.through d.id + after.across d.id * before.through d.id +
        (before.across d.id * after.through d.id + before.across d.id * before.through d.id)) *
          (1 / 4) := by
    intro d _
    rw [meanPower, Scalar.two_exact]
    ring
  rw [List.map_congr_left hterm, List.sum_map_mul_right, List.sum_map_add, List.sum_map_add,
    List.sum_map_add, hnew, hmixed', hmixed, hold]
  ring

/-- A resistor takes power in, whatever flows through it. -/
theorem meanPower_resistor_nonneg (hs : before.Consistent) (hconserving : before.Conserving)
    (hlin : before.circuit.hasNonlinear = false) (ht : tick budget before = .ok () after)
    (hd : d ∈ before.circuit.components) {a b : Node} {resistance : α} {fault : ResistorFault}
    (hdevice : d.device = .resistor a b resistance fault) : 0 ≤ meanPower before after d := by
  have hconserving' := conserving_tick hs hlin ht
  have hcircuit := circuit_of_tick ht
  obtain ⟨e₀, companions, e, x, state, newton, he, hstamp, -, -, -⟩ := tick_inv ht
  obtain ⟨l, hstamped⟩ :=
    Circuit.stamped_of_stampTick hs.numbered (hs.staticEquation_eq he) hstamp
  have hpos : 0 < fault.effective resistance := by
    have hchecked := hstamped.checked d hd
    rw [hdevice] at hchecked
    exact hchecked
  have hold := hconserving.resistor d hd a b resistance fault hdevice
  have hnew := hconserving'.resistor d (hcircuit ▸ hd) a b resistance fault hdevice
  have hsquare : meanPower before after d = fault.effective resistance *
      ((after.through d.id + before.through d.id) / 2) ^ 2 := by
    rw [meanPower, hold, hnew, Scalar.two_exact]
    ring
  rw [hsquare]
  exact mul_nonneg hpos.le (sq_nonneg _)

theorem meanPower_wire (hs : before.Consistent) (hconserving : before.Conserving)
    (hlin : before.circuit.hasNonlinear = false) (ht : tick budget before = .ok () after)
    (hd : d ∈ before.circuit.components) {a b : Node} {branch : Option Branch}
    (hdevice : d.device = .wire a b branch) : meanPower before after d = 0 := by
  have hconserving' := conserving_tick hs hlin ht
  have hcircuit := circuit_of_tick ht
  have hold := hconserving.wire d hd a b branch hdevice
  have hnew := hconserving'.wire d (hcircuit ▸ hd) a b branch hdevice
  rw [meanPower, hold, hnew, Scalar.two_exact]
  ring

/-- A simple component has a voltage across it and a current, before a tick and after it. -/
theorem hasPair_tick (hs : before.Consistent) (hsimple : before.Simple) (hstored : before.Stored)
    (ht : tick budget before = .ok () after) (hd : d ∈ before.circuit.components) :
    before.HasPair d.id ∧ after.HasPair d.id := by
  obtain ⟨a, b, hnodes, -, hone⟩ := Device.pair_of_isSimple (hsimple d hd)
  have hcircuit := circuit_of_tick ht
  exact ⟨hstored.hasPair hs.numbered hd hnodes hone,
    (hs.stored_tick ht).hasPair (hs.tick ht).numbered (hcircuit ▸ hd) hnodes hone⟩

/-- What capacitors and inductors gain in a tick is the work that the others give off. -/
theorem sum_gained (hs : before.Consistent) (hsimple : before.Simple) (hstored : before.Stored)
    (hconserving : before.Conserving) (ht : tick budget before = .ok () after) :
    ((before.circuit.components.filter (·.device.isStorage)).map (gained before after)).sum =
      -(before.settings.timestep *
        ((before.circuit.components.filter (!·.device.isStorage)).map
          (meanPower before after)).sum) := by
  have hgained : ∀ d ∈ before.circuit.components.filter (·.device.isStorage),
      gained before after d = before.settings.timestep * meanPower before after d := by
    intro d hd
    obtain ⟨hd, hstorage⟩ := List.mem_filter.1 hd
    exact gained_eq hs ht hd hstorage
  have hall := sum_meanPower hs hsimple hstored hconserving ht
  rw [← sum_filter_add (·.device.isStorage)] at hall
  rw [List.map_congr_left hgained, List.sum_map_mul_left]
  linear_combination before.settings.timestep * hall

/-- Besides the sources only resistors and wires store no energy, and they give none off. -/
theorem sum_supply_le (hs : before.Consistent) (hsimple : before.Simple)
    (hconserving : before.Conserving) (ht : tick budget before = .ok () after) :
    ((before.circuit.components.filter (·.device.isSupply)).map (meanPower before after)).sum ≤
      ((before.circuit.components.filter (!·.device.isStorage)).map
        (meanPower before after)).sum := by
  have hlin := hsimple.hasNonlinear_eq
  rw [sum_filter, sum_filter]
  refine List.sum_le_sum fun d hd => ?_
  have hsimple := hsimple d hd
  cases hdevice : d.device with
  | resistor a b resistance fault =>
    exact meanPower_resistor_nonneg hs hconserving hlin ht hd hdevice
  | wire a b branch => exact (meanPower_wire hs hconserving hlin ht hd hdevice).ge
  | voltageSource a b waveform branch => exact le_rfl
  | currentSource a b current => exact le_rfl
  | capacitor a b capacitance => exact le_rfl
  | inductor a b inductance => exact le_rfl
  | _ => rw [hdevice] at hsimple; cases hsimple

/-- In every run of a circuit of simple components, what capacitors and inductors gain in a
successful tick is the work that all the others give off, by the mean of the voltages and currents
stored before and after. A resistor never gives off any, so the energy comes from the sources. -/
theorem ticks_balance_energy {log : List (Event α)} (h : Run log s)
    (hticked : .ticked before after ∈ log) (hsimple : before.Simple) :
    (∃ budget, tick budget before = .ok () after) ∧
    (∀ d ∈ before.circuit.components, before.HasPair d.id ∧ after.HasPair d.id) ∧
    ((before.circuit.components.filter (·.device.isStorage)).map (gained before after)).sum =
      -(before.settings.timestep *
        ((before.circuit.components.filter (!·.device.isStorage)).map
          (meanPower before after)).sum) ∧
    (∀ d ∈ before.circuit.components, ∀ a b resistance fault,
      d.device = .resistor a b resistance fault → 0 ≤ meanPower before after d) ∧
    ((before.circuit.components.filter (·.device.isStorage)).map (gained before after)).sum ≤
      -(before.settings.timestep *
        ((before.circuit.components.filter (·.device.isSupply)).map
          (meanPower before after)).sum) := by
  obtain ⟨hs, hstored, hconserving, budget, ht⟩ := lasting_conserving.ticked h hticked
  have hlin := hsimple.hasNonlinear_eq
  have hconserving := hconserving hlin
  have hbalance := sum_gained hs hsimple hstored hconserving ht
  refine ⟨⟨budget, ht⟩, fun d hd => hasPair_tick hs hsimple hstored ht hd, hbalance,
    fun d hd a b resistance fault hdevice =>
      meanPower_resistor_nonneg hs hconserving hlin ht hd hdevice, ?_⟩
  have hsupply := sum_supply_le hs hsimple hconserving ht
  rw [hbalance]
  exact neg_le_neg (mul_le_mul_of_nonneg_left hsupply (timestep_pos_of_tick ht).le)

/-- In the last tick the capacitor and the inductor gain energy, all of it from the source. -/
theorem ticks_balance_energy_resonating :
    ∃ (log : List (Event ℚ)) (before after s : Simulator ℚ), Run log s ∧
      .ticked before after ∈ log ∧ before.Simple ∧
      0 < ((before.circuit.components.filter (·.device.isStorage)).map (gained before after)).sum ∧
      ((before.circuit.components.filter (·.device.isStorage)).map (gained before after)).sum =
        -(before.settings.timestep *
          ((before.circuit.components.filter (!·.device.isStorage)).map
            (meanPower before after)).sum) := by
  have hfound : (match replay 2 [.loadComponents resonating, .start, .advance 10] [] .initial with
      | some (log, _) =>
        match log.getLast? with
        | some (.ticked before after) =>
          before.circuit.components.all (·.device.isSimple) &&
            0 < ((before.circuit.components.filter (·.device.isStorage)).map
              (gained before after)).sum
        | some (.failed _) => false
        | some .loaded => false
        | none => false
      | none => false) = true := by decide +kernel
  split at hfound
  case h_2 => cases hfound
  rename_i log s hreplay
  split at hfound
  case h_2 | h_3 | h_4 => cases hfound
  rename_i before after hlast
  obtain ⟨hsimple, hgained⟩ := Bool.and_eq_true_iff.1 hfound
  have hsimple : before.Simple := fun d hd => List.all_eq_true.1 hsimple d hd
  have hgained := of_decide_eq_true hgained
  have hrun := Run.initial.replay (by simp [Call.Proper]) hreplay
  have hmem := List.mem_of_getLast? hlast
  obtain ⟨-, -, hbalance, -⟩ := ticks_balance_energy hrun hmem hsimple
  exact ⟨log, before, after, s, hrun, hmem, hsimple, hgained, hbalance⟩

end Simulator

end Nodal
