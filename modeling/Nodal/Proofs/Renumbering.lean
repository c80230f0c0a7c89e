import Nodal.Proofs.CircuitLaws
import Nodal.Proofs.Loading
import Nodal.Proofs.Lockstep
import Nodal.Proofs.Relabelling
import Nodal.Proofs.Solvability

/-! # Runs with other ids

Other ids put the components in another order, and the sources in other rows. Yet the solution of
one circuit, with the currents of its sources in the order of the other one, leaves no defect there
either. As the equation has only one solution, the two circuits show the same. -/

namespace Nodal
variable {α : Type} [ExactScalar α]

/-! ## What components show -/

namespace Component
variable {f : ComponentId → ComponentId} {d d' : Component α}

theorem Relabels.companion?_eq (h : Relabels f d d') (timestep : α)
    (previous : ComponentState α) :
    d'.companion? timestep previous = d.companion? timestep previous := by
  obtain ⟨id, name, device⟩ := d
  obtain ⟨id', name', device'⟩ := d'
  obtain ⟨-, hdevice⟩ := h
  simp only at hdevice
  rw [hdevice]
  cases device with
  | capacitor a b capacitance =>
    simp only [Device.withBranch, companion?, Companion.capacitor, requirePositive]
    split_ifs <;> rfl
  | inductor a b inductance =>
    simp only [Device.withBranch, companion?, Companion.inductor, requirePositive]
    split_ifs <;> rfl
  | _ => rfl

/-- Two components with the same device show the same of solutions that agree in the voltages of
their nodes and in the currents of their branches. -/
theorem Relabels.tickState_eq (h : Relabels f d d') {s s' : Solution α}
    (hvoltage : ∀ n ∈ d.nodes, s'.voltage n = s.voltage n)
    (hcurrent : branchCurrent s' d'.device.branch? = branchCurrent s d.device.branch?)
    (companion : Option (Companion α)) : d'.tickState s' companion = d.tickState s companion := by
  have hvoltages : d'.nodes.map s'.voltage = d.nodes.map s.voltage := by
    rw [h.nodes_eq]
    exact List.map_congr_left hvoltage
  have hcurrents : d'.currents s' = d.currents s := by
    obtain ⟨id, name, device⟩ := d
    obtain ⟨id', name', device'⟩ := d'
    obtain ⟨-, hdevice⟩ := h
    simp only at hdevice hcurrent
    generalize device'.branch? = k at hdevice hcurrent
    subst hdevice
    cases device with
    | resistor a b resistance fault =>
      simp only [currents, Device.withBranch, hvoltage a List.mem_cons_self,
        hvoltage b (List.mem_cons_of_mem _ List.mem_cons_self)]
    | wire a b branch => exact congrArg (fun i => [i]) hcurrent
    | voltageSource a b waveform branch => exact congrArg (fun i => [i]) hcurrent
    | opAmp plus minus output gain branch => exact congrArg (fun i => [0, i]) hcurrent
    | diode anode cathode params =>
      simp only [currents, Device.withBranch, hvoltage anode List.mem_cons_self,
        hvoltage cathode (List.mem_cons_of_mem _ List.mem_cons_self)]
    | mosfet drain gate source channel params =>
      simp only [currents, Device.withBranch, hvoltage drain List.mem_cons_self,
        hvoltage gate (List.mem_cons_of_mem _ List.mem_cons_self),
        hvoltage source (List.mem_cons_of_mem _ (List.mem_cons_of_mem _ List.mem_cons_self))]
    | _ => rfl
  simp only [tickState, hvoltages, hcurrents]

theorem Relabels.violation_eq (h : Relabels f d d') (time : α) (voltages : List α) :
    d'.device.violation time voltages = d.device.violation time voltages := by
  rw [h.device_eq]
  cases d.device with
  | wire | voltageSource | opAmp => rcases voltages with _ | ⟨v, _ | ⟨w, _ | ⟨z, _ | _⟩⟩⟩ <;> rfl
  | _ => rfl

theorem Relabels.leaving_eq (h : Relabels f d d') (currents : List α) (n : Node) :
    d'.device.leaving currents n = d.device.leaving currents n := by
  rw [h.device_eq]
  cases d.device <;> rfl

end Component

/-! ## Solutions -/

theorem Equation.mulVec_of_defect {l : Layout} {e : Equation α} (he : e.Fits l) {x : List α}
    (h : ∀ i < l.size, e.defect x i = 0) : e.admittances.mulVec x = e.inputs := by
  rw [Matrix.mulVec_eq]
  refine List.ext_getElem (by simp [he.size_eq, he.length_eq]) fun i hi hi' => ?_
  have hrow := h i (he.length_eq ▸ hi')
  rw [defect, List.getD_eq_getElem?_getD, List.getElem?_eq_getElem hi', Option.getD_some] at hrow
  simpa using sub_eq_zero.1 hrow

namespace Circuit

section Solutions
variable {f : ComponentId → ComponentId} {c c' : Circuit α} {l : Layout}

/-- The solution of the other circuit with the currents of the sources in the order of this one. -/
def reordered (f : ComponentId → ComponentId) (c c' : Circuit α) (x' : List α) : List α :=
  x'.take (c'.numNodes - 1) ++ c.sources.map fun d => ((c'.get? (f d.id)).map fun d' =>
    Component.branchCurrent ⟨0 :: x', c'.numNodes⟩ d'.device.branch?).getD 0

theorem length_reordered (hrel : Relabels f c c') (hc : c.Fits l) {x' : List α}
    (hx' : x'.length = l.size) : (reordered f c c' x').length = l.size := by
  have hnodes : c'.numNodes - 1 ≤ l.size := by
    rw [hrel.numNodes_eq, hc.numNodes_eq]
    exact Nat.le_add_right ..
  rw [reordered, List.length_append, List.length_take, List.length_map, hx', Nat.min_eq_left hnodes,
    hrel.numNodes_eq, hc.numNodes_eq, hc.numbered.length_sources, hc.numSources_eq, Layout.size]

theorem getD_reordered (hrel : Relabels f c c') (hc : c.Fits l) {x' : List α}
    (hx' : x'.length = l.size) {i : Nat} (hi : i < l.numNodes - 1) :
    (reordered f c c' x').getD i 0 = x'.getD i 0 := by
  have hnodes : l.numNodes - 1 ≤ l.size := Nat.le_add_right ..
  have hlen : i < (x'.take (c'.numNodes - 1)).length := by
    rw [List.length_take, hx', hrel.numNodes_eq, hc.numNodes_eq]
    exact Nat.lt_min.2 ⟨hi, hi.trans_le hnodes⟩
  rw [reordered, List.getD_eq_getElem?_getD, List.getElem?_append_left hlen, List.getElem?_take,
    hrel.numNodes_eq, hc.numNodes_eq, if_pos hi, List.getD_eq_getElem?_getD]

theorem voltage_reordered (hrel : Relabels f c c') (hc : c.Fits l) {x' : List α}
    (hx' : x'.length = l.size) {n : Node} (hn : n.number.toNat < l.numNodes) :
    (⟨0 :: x', c'.numNodes⟩ : Solution α).voltage n =
      (⟨0 :: reordered f c c' x', c.numNodes⟩ : Solution α).voltage n := by
  rw [Solution.voltage_eq, Solution.voltage_eq, voltageIn, voltageIn]
  cases hrow : n.row? with
  | none => rfl
  | some i =>
    rw [unknownAt_some, unknownAt_some, getD_reordered hrel hc hx' (Node.row?_lt hn hrow)]

theorem branchCurrent_reordered (hrel : Relabels f c c') (hc : c.Fits l) {x' : List α}
    (hx' : x'.length = l.size) {d d' : Component α} (hd : d ∈ c.components)
    (hd' : d' ∈ c'.components) (h : Component.Relabels f d d') :
    Component.branchCurrent ⟨0 :: x', c'.numNodes⟩ d'.device.branch? =
      Component.branchCurrent ⟨0 :: reordered f c c' x', c.numNodes⟩ d.device.branch? := by
  by_cases hs : d.device.numSources = 0
  · rw [Device.branch?_eq_none hs, Device.branch?_eq_none (h.numSources_eq.trans hs)]
    rfl
  · obtain ⟨k, hk⟩ := List.getElem?_of_mem (mem_sources hd hs)
    have hlt : k < l.numSources := by
      rw [← hc.numSources_eq, ← hc.numbered.length_sources]
      exact (List.getElem?_eq_some_iff.1 hk).1
    have hget : c'.get? (f d.id) = some d' := h.id_eq ▸ hrel.numbered'.get?_eq hd'
    have hnodes : l.numNodes - 1 ≤ l.size := Nat.le_add_right ..
    have hlen : (x'.take (c'.numNodes - 1)).length = l.numNodes - 1 := by
      rw [List.length_take, hx', hrel.numNodes_eq, hc.numNodes_eq, Nat.min_eq_left hnodes]
    have hrow : (reordered f c c' x').getD (l.branchRow ⟨k⟩) 0 =
        Component.branchCurrent ⟨0 :: x', c'.numNodes⟩ d'.device.branch? := by
      rw [reordered, Layout.branchRow, List.getD_eq_getElem?_getD, List.getElem?_append_right
        (by rw [hlen]; exact Nat.le_add_right ..), hlen, Nat.add_sub_cancel_left, List.getElem?_map,
        hk, Option.map_some, hget]
      rfl
    rw [hc.numbered.branch?_source hk, Component.branchCurrent, hc.numNodes_eq,
      Solution.branchCurrent_eq _ l hlt, hrow]

variable {timestep time : α} {previous previous' : CircuitState α}

/-- Components in the same place show the same of the reordered solution. -/
theorem stateOf_reordered (hrel : Relabels f c c') (hc : c.Fits l)
    (hprevious : ∀ d ∈ c.components, previous'.get? (f d.id) = previous.get? d.id) {x' : List α}
    (hx' : x'.length = l.size) {d d' : Component α} (hd : d ∈ c.components)
    (hd' : d' ∈ c'.components) (h : Component.Relabels f d d') :
    c'.stateOf timestep previous' x' d' =
      c.stateOf timestep previous (reordered f c c' x') d := by
  have hcompanion : companionOf timestep previous' d' = companionOf timestep previous d := by
    rw [companionOf, companionOf, h.companion?_eq, h.id_eq, hprevious d hd]
  rw [stateOf, stateOf, hcompanion]
  refine h.tickState_eq (fun n hn => ?_) (branchCurrent_reordered hrel hc hx' hd hd' h) _
  exact voltage_reordered hrel hc hx' (hc.nodes_lt d hd n hn)

variable {l' : Layout} {companions companions' : Companions α} {e e' : Equation α}

/-- The reordered solution solves the equation of this circuit too. -/
theorem totalRow_reordered (hrel : Relabels f c c') (hlinear : c.hasNonlinear = false)
    (h : Stamped l c timestep time previous companions e)
    (h' : Stamped l' c' timestep time previous' companions' e')
    (hprevious : ∀ d ∈ c.components, previous'.get? (f d.id) = previous.get? d.id) {x' : List α}
    (hx' : e'.solve = .ok x') (hlen : x'.length = l.size) {i : Nat} (hi : i < l.size) :
    totalRow l c timestep time previous (reordered f c c' x') i = 0 := by
  have hlinear' : c'.hasNonlinear = false := hrel.hasNonlinear_eq.trans hlinear
  have hstate : ∀ d ∈ c.components, ∀ d' ∈ c'.components, Component.Relabels f d d' →
      c'.stateOf timestep previous' x' d' = c.stateOf timestep previous (reordered f c c' x') d :=
    fun d hd d' hd' hdd' => stateOf_reordered hrel h.circuit hprevious hlen hd hd' hdd'
  by_cases hnode : i < l.numNodes - 1
  · -- at a node both circuits have the same currents, in another order
    rw [totalRow_node h _ hnode]
    have hmem : (⟨UInt64.ofNat (1 + i)⟩ : Node) ∈ c'.nonGroundNodes := by
      rw [nonGroundNodes_eq l' h'.circuit, ← h'.circuit.numNodes_eq, hrel.numNodes_eq,
        h.circuit.numNodes_eq]
      exact List.mem_map.2 ⟨i, List.mem_range.2 hnode, rfl⟩
    rw [← netCurrent_solved h' hlinear' hx' _ hmem, netCurrent, netCurrent]
    refine (hrel.perm_map fun d hd d' hd' hdd' => ?_).sum_eq
    rw [h.get?_state _ hd, h'.get?_state _ hd', Option.getD_some, Option.getD_some,
      hstate d hd d' hd' hdd', hdd'.leaving_eq]
  · -- in the row of a source both circuits miss the same voltage
    obtain ⟨k, rfl⟩ := Nat.exists_eq_add_of_le (Nat.le_of_not_lt hnode)
    have hk : k < c.sources.length := by
      rw [h.circuit.numbered.length_sources, h.circuit.numSources_eq]
      exact Nat.lt_of_add_lt_add_left hi
    have hget : c.sources[k]? = some c.sources[k] := List.getElem?_eq_getElem hk
    have hmem := mem_of_source hget
    obtain ⟨d', hd', hdd'⟩ := hrel.exists_partner hmem
    have hrow := totalRow_branch h (reordered f c c' x') hget
    rw [Layout.branchRow] at hrow
    rw [hrow, ← hstate _ hmem d' hd' hdd', ← hdd'.violation_eq]
    exact violation_solved h' hlinear' hx' hd'

/-- The solutions of both circuits are the same up to the order of the sources. -/
theorem solution_reordered (hrel : Relabels f c c') (hlinear : c.hasNonlinear = false)
    (h : Stamped l c timestep time previous companions e)
    (h' : Stamped l' c' timestep time previous' companions' e')
    (hprevious : ∀ d ∈ c.components, previous'.get? (f d.id) = previous.get? d.id) {x x' : List α}
    (hx : e.solve = .ok x) (hx' : e'.solve = .ok x') (hlen : x'.length = l.size) :
    x = reordered f c c' x' := by
  have hsize := h.equation.size_eq
  obtain ⟨hxlen, -⟩ := Matrix.solve_sound hx
  have hmul := Matrix.mulVec_of_solve hx (h.equation.length_eq.trans hsize.symm)
  have hreordered : e.admittances.mulVec (reordered f c c' x') = e.inputs := by
    refine Equation.mulVec_of_defect h.equation fun i hi => ?_
    rw [defect_linear h hlinear]
    exact totalRow_reordered hrel hlinear h h' hprevious hx' hlen hi
  refine Matrix.eq_of_mulVec (Matrix.isUnit_of_solve hx) hxlen ?_ (hmul.trans hreordered.symm)
  rw [length_reordered hrel h.circuit hlen, hsize]

end Solutions

end Circuit

/-! ## Simulators -/

namespace Simulator
variable {f : ComponentId → ComponentId} {s s' t t' : Simulator α}

/-- The circuits are the same but for ids, which `f` relates, names and branches. None has nonlinear
devices, and both show the same. -/
structure Relabels (f : ComponentId → ComponentId) (s s' : Simulator α) : Prop where
  circuit : Circuit.Relabels f s.circuit s'.circuit
  linear : s.circuit.hasNonlinear = false
  /-- Both circuits have been refused, or both have their static equation. -/
  equation : s.equation = none ∧ s'.equation = none ∨
    ∃ e e', s.circuit.staticEquation = .ok e ∧ s.equation = some e ∧
      s'.circuit.staticEquation = .ok e' ∧ s'.equation = some e'
  voltage : ∀ n : Node, n.number.toNat < s.circuit.numNodes → s'.nodeVoltage n = s.nodeVoltage n
  shown : ∀ d ∈ s.circuit.components, ∃ shown, s.componentState? d.id = some shown ∧
    s'.componentState? (f d.id) = some shown
  settings : s'.settings = s.settings
  remaining : s'.remaining = s.remaining
  time : s'.time = s.time
  running : s'.running = s.running

theorem Relabels.sameClock (h : Relabels f s s') : SameClock s s' where
  remaining := h.remaining
  running := h.running
  isReady := by
    rcases h.equation with ⟨hnone, hnone'⟩ | ⟨e, e', -, hsome, -, hsome'⟩
    · rw [isReady, isReady, hnone, hnone']
    · rw [isReady, isReady, hsome, hsome']
      rfl
  timestep := congrArg _ h.settings
  rate := congrArg _ h.settings

/-- Circuits at rest show the same. -/
theorem relabels_reset (hcircuit : Circuit.Relabels f s.circuit s'.circuit)
    (hlinear : s.circuit.hasNonlinear = false)
    (hequation : s.equation = none ∧ s'.equation = none ∨
      ∃ e e', s.circuit.staticEquation = .ok e ∧ s.equation = some e ∧
        s'.circuit.staticEquation = .ok e' ∧ s'.equation = some e')
    (hsettings : s'.settings = s.settings) (hremaining : s'.remaining = s.remaining)
    (htime : s'.time = s.time) (hrunning : s'.running = s.running) :
    Relabels f s.reset s'.reset where
  circuit := hcircuit
  linear := hlinear
  equation := hequation
  voltage n _ := by rw [nodeVoltage_reset, nodeVoltage_reset]
  shown d hd := by
    obtain ⟨d', hd', h⟩ := hcircuit.exists_partner hd
    have hshown := hcircuit.numbered'.get?_map
      (fun d => .zeroed d.nodes.length d.device.numCurrents) hd'
    rw [h.nodes_eq, h.numCurrents_eq, h.id_eq] at hshown
    exact ⟨_, hcircuit.numbered.get?_map _ hd, hshown⟩
  settings := hsettings
  remaining := hremaining
  time := htime
  running := hrunning

/-- When both ticks succeed, what the circuits show is the same afterwards. -/
theorem Relabels.tick (h : Relabels f s s') {budget : Nat} (ht : tick budget s = .ok () t)
    (ht' : Simulator.tick budget s' = .ok () t') : Relabels f t t' := by
  obtain ⟨e₁, companions, e, x, state, newton, he₁, hstamp, hsolve, hstate, rfl⟩ := tick_inv ht
  obtain ⟨e₁', companions', e', x', state', newton', he₁', hstamp', hsolve', hstate', rfl⟩ :=
    tick_inv ht'
  rcases h.equation with ⟨hnone, -⟩ | ⟨e₀, e₀', hstatic, he₀, hstatic', he₀'⟩
  · cases hnone.symm.trans he₁
  cases he₀.symm.trans he₁
  cases he₀'.symm.trans he₁'
  have hlinear' : s'.circuit.hasNonlinear = false := h.circuit.hasNonlinear_eq.trans h.linear
  have hx := Equation.solve_of_solveWith h.linear hsolve
  have hx' := Equation.solve_of_solveWith hlinear' hsolve'
  rw [h.settings, h.time] at hstamp'
  obtain ⟨l, hl⟩ := Circuit.stamped_of_stampTick h.circuit.numbered hstatic hstamp
  obtain ⟨l', hl'⟩ := Circuit.stamped_of_stampTick h.circuit.numbered' hstatic' hstamp'
  have hlen : x'.length = l.size := by
    obtain ⟨hlen, -⟩ := Matrix.solve_sound hx'
    rw [hlen, hl'.equation.size_eq, Layout.size, Layout.size, ← hl'.circuit.numNodes_eq,
      ← hl'.circuit.numSources_eq, h.circuit.numNodes_eq, h.circuit.numSources_eq,
      hl.circuit.numNodes_eq, hl.circuit.numSources_eq]
  have hprevious : ∀ d ∈ s.circuit.components, s'.state.get? (f d.id) = s.state.get? d.id := by
    intro d hd
    obtain ⟨shown, hshown, hshown'⟩ := h.shown d hd
    exact hshown'.trans hshown.symm
  have hsame := Circuit.solution_reordered h.circuit h.linear hl hl' hprevious hx hx' hlen
  rw [hl.deriveState_eq] at hstate
  rw [hl'.deriveState_eq] at hstate'
  cases hstate
  cases hstate'
  refine ⟨h.circuit, h.linear, h.equation, fun n hn => ?_, fun d hd => ?_, h.settings, h.remaining,
    ?_, h.running⟩
  · have hvoltage := Circuit.voltage_reordered h.circuit hl.circuit hlen
      (hl.circuit.numNodes_eq ▸ hn)
    rwa [← hsame] at hvoltage
  · obtain ⟨d', hd', hdd'⟩ := h.circuit.exists_partner hd
    have hshown := hl'.get?_state x' hd'
    rw [hdd'.id_eq, Circuit.stateOf_reordered h.circuit hl.circuit hprevious hlen hd hd' hdd',
      ← hsame] at hshown
    exact ⟨_, hl.get?_state x hd, hshown⟩
  · show s'.time + s'.settings.timestep = s.time + s.settings.timestep
    rw [h.time, h.settings]

/-- The second simulator is the same as the first but for the ids. -/
def Relabelled (f : ComponentId → ComponentId) (s : Fin 2 → Simulator α) : Prop :=
  Relabels f (s 0) (s 1)

/-- Every tick of the two succeeds. -/
def Succeed (budget : Nat) (s : Fin 2 → Simulator α) : Prop :=
  ∀ i, succeeds (Simulator.tick budget (s i))

/-- A tick of one of the two fails. -/
def SomeFails (budget : Nat) (s : Fin 2 → Simulator α) : Prop :=
  ∃ i, ¬ succeeds (Simulator.tick budget (s i))

/-- Ticks that succeed keep the simulators the same but for the ids. -/
theorem lockstep_relabels (f : ComponentId → ComponentId) :
    Lockstep (Relabelled (α := α) f) Succeed SomeFails where
  clock s h := by
    have hself : SameClock (s 0) (s 0) := ⟨rfl, rfl, rfl, rfl, rfl⟩
    exact ⟨s 0, Fin.forall_fin_two.2 ⟨hself, h.sameClock⟩⟩
  waiting s h remaining := { h with remaining := rfl }
  noting s h lastError := { h with }
  switched s h running := { h with running := rfl }
  reset s h := relabels_reset h.circuit h.linear h.equation h.settings h.remaining h.time h.running
  tick budget s h := by
    by_cases hall : Succeed budget s
    · left
      have hticks : ∀ i, Simulator.tick budget (s i) =
          .ok () (after (Simulator.tick budget (s i))) := fun i => by
        obtain ⟨⟨⟩, hi⟩ := exists_of_succeeds (hall i)
        exact hi
      exact ⟨hall, .ok _ _ hticks trivial (h.tick (hticks 0) (hticks 1))⟩
    · exact .inr (not_forall.1 hall)

/-! ## Loads -/

/-- The loads bring linear circuits that are the same but for the ids, which `f` relates without
mixing them up, and the names. -/
inductive Call.Relabels (f : ComponentId → ComponentId) : Call α → Call α → Prop
  | circuit {c c' : Circuit α} : Circuit.Relabels f c c' → c.hasNonlinear = false →
      Relabels f (.loadCircuit c) (.loadCircuit c')
  | components {cs cs' : List (Component α)} :
      (∀ d ∈ cs, ∀ e ∈ cs, f d.id = f e.id → d.id = e.id) →
      (∀ d ∈ cs, d.isNonlinear = false) →
      (cs.map (Component.relabelled f)).Perm (cs'.map Component.unlabelled) →
      Relabels f (.loadComponents cs) (.loadComponents cs')
  | description (simulation : SimulatorSettings α) {ds ds' : List (ComponentDescription α)} :
      (∀ d ∈ ds, ∀ e ∈ ds, f d.id = f e.id → d.id = e.id) →
      (∀ d ∈ ds, d.parameters.kind ∉ [.diode, .mosfet]) →
      (ds.map (ComponentDescription.relabelled f)).Perm
        (ds'.map ComponentDescription.unlabelled) →
      Relabels f (.loadDescription ⟨simulation, ds⟩) (.loadDescription ⟨simulation, ds'⟩)

/-- Both loads come back and leave simulators that are the same but for the ids, or both end with
errors. -/
inductive LoadsRelabelled {β : Type} (f : ComponentId → ComponentId) (answer : β)
    (load load' : Changing α β) (s s' : Simulator α) : Prop
  | comesBack (t t' : Simulator α) : load s = .ok answer t → load' s' = .ok answer t' →
      Simulator.Relabels f t t' → LoadsRelabelled f answer load load' s s'
  | halts (halt halt' : Halt α) (t t' : Simulator α) : load s = .error halt t →
      load' s' = .error halt' t' → LoadsRelabelled f answer load load' s s'

theorem LoadsRelabelled.andReturn {β γ : Type} {answer : β} {load load' : Changing α β}
    (h : LoadsRelabelled f answer load load' s s') (g : β → γ) :
    LoadsRelabelled f (g answer) (do return g (← load)) (do return g (← load')) s s' := by
  rcases h with ⟨t, t', ht, ht', hrelabels⟩ | ⟨halt, halt', t, t', ht, ht'⟩
  · refine .comesBack t t' ?_ ?_ hrelabels
    · exact run_bind_eq_ok.2 ⟨answer, t, ht, rfl⟩
    · exact run_bind_eq_ok.2 ⟨answer, t', ht', rfl⟩
  · refine .halts halt halt' t t' ?_ ?_
    · exact run_bind_eq_error.2 (.inl ht)
    · exact run_bind_eq_error.2 (.inl ht')

section Loads
variable (hsettings : s'.settings = s.settings) (hrunning : s'.running = s.running)
include hsettings hrunning

theorem relabels_reloaded {c c' : Circuit α} (hc : Circuit.Relabels f c c')
    (hlinear : c.hasNonlinear = false) {equation equation' : Option (Equation α)}
    (hequation : equation = none ∧ equation' = none ∨
      ∃ e e', c.staticEquation = .ok e ∧ equation = some e ∧
        c'.staticEquation = .ok e' ∧ equation' = some e')
    (lastError lastError' : Option (Failure α)) :
    Relabels f (s.reloaded c equation lastError) (s'.reloaded c' equation' lastError') :=
  relabels_reset hc hlinear hequation hsettings rfl rfl hrunning

theorem loadCircuit_relabelled {c c' : Circuit α} (hc : Circuit.Relabels f c c')
    (hlinear : c.hasNonlinear = false) :
    LoadsRelabelled f () (loadCircuit c) (loadCircuit c') s s' := by
  have hends := hc.staticEquation hlinear
  generalize hr : c.staticEquation = r at hends
  generalize hr' : c'.staticEquation = r' at hends
  have hrefused := relabels_reloaded hsettings hrunning hc hlinear (.inl ⟨rfl, rfl⟩)
  cases hends with
  | ok e e' =>
    have hloaded := relabels_reloaded hsettings hrunning hc hlinear
      (.inr ⟨e, e', hr, rfl, hr', rfl⟩) none none
    exact .comesBack _ _ (by rw [loadCircuit, hr]; rfl) (by rw [loadCircuit, hr']; rfl) hloaded
  | failed g g' =>
    exact .comesBack _ _ (by rw [loadCircuit, hr]; rfl) (by rw [loadCircuit, hr']; rfl)
      (hrefused (some g) (some g'))
  | halted halt =>
    cases halt with
    | failed g =>
      exact .comesBack _ _ (by rw [loadCircuit, hr]; rfl) (by rw [loadCircuit, hr']; rfl)
        (hrefused (some g) (some g))
    | misuse m => exact .halts _ _ s s' (by rw [loadCircuit, hr]) (by rw [loadCircuit, hr'])
    | exhausted => exact .halts _ _ s s' (by rw [loadCircuit, hr]) (by rw [loadCircuit, hr'])

theorem loadComponents_relabelled {cs cs' : List (Component α)}
    (hf : ∀ d ∈ cs, ∀ e ∈ cs, f d.id = f e.id → d.id = e.id)
    (hlinear : ∀ d ∈ cs, d.isNonlinear = false)
    (h : (cs.map (Component.relabelled f)).Perm (cs'.map Component.unlabelled)) :
    LoadsRelabelled f () (loadComponents cs) (loadComponents cs') s s' := by
  have hboth := Circuit.exists_ofComponents_iff.trans
    ((nodup_ids_iff hf h).trans Circuit.exists_ofComponents_iff.symm)
  cases hcs : Circuit.ofComponents cs with
  | ok c =>
    obtain ⟨c', hcs'⟩ := hboth.1 ⟨c, hcs⟩
    simp only [loadComponents, hcs, hcs']
    exact loadCircuit_relabelled hsettings hrunning (Circuit.relabels_of_ofComponents hcs hcs' h)
      (Circuit.linear_of_ofComponents hcs hlinear)
  | error g =>
    cases hcs' : Circuit.ofComponents cs' with
    | ok c' =>
      obtain ⟨c, hc⟩ := hboth.2 ⟨c', hcs'⟩
      cases hcs.symm.trans hc
    | error g' =>
      simp only [loadComponents, hcs, hcs']
      -- both simulators are left with the circuit without components, which is refused
      have hunloaded : Circuit.Relabels f (.unloaded : Circuit α) .unloaded :=
        ⟨Circuit.numbered_unloaded, Circuit.numbered_unloaded, .rfl, rfl, rfl⟩
      exact .comesBack (s.reloaded .unloaded none (some g)) (s'.reloaded .unloaded none (some g'))
        rfl rfl (relabels_reloaded hsettings hrunning hunloaded rfl (.inl ⟨rfl, rfl⟩) _ _)

omit hsettings in
theorem loadDescription_relabelled (simulation : SimulatorSettings α)
    {ds ds' : List (ComponentDescription α)}
    (hf : ∀ d ∈ ds, ∀ e ∈ ds, f d.id = f e.id → d.id = e.id)
    (hlinear : ∀ d ∈ ds, d.parameters.kind ∉ [.diode, .mosfet])
    (h : (ds.map (ComponentDescription.relabelled f)).Perm
      (ds'.map ComponentDescription.unlabelled)) :
    LoadsRelabelled f () (loadDescription ⟨simulation, ds⟩) (loadDescription ⟨simulation, ds'⟩) s
      s' := by
  cases hvalid : simulation.validate with
  | error g =>
    exact .halts (.failed g) (.failed g) s s' (by simp only [loadDescription_eq, hvalid])
      (by simp only [loadDescription_eq, hvalid])
  | ok u =>
    rcases ComponentDescription.toComponents_relabelled h with
      ⟨cs, cs', hcs, hcs', hperm⟩ | ⟨g, g', hg, hg'⟩
    · have hmakes := ComponentDescription.exists_makes
        (ComponentDescription.makes_of_toComponents hcs)
      have hf' : ∀ d ∈ cs, ∀ e ∈ cs, f d.id = f e.id → d.id = e.id := by
        intro d hd e he heq
        obtain ⟨d₀, hd₀, hid, -⟩ := hmakes d hd
        obtain ⟨e₀, he₀, hid', -⟩ := hmakes e he
        rw [hid, hid'] at heq ⊢
        exact hf d₀ hd₀ e₀ he₀ heq
      have hlinear' : ∀ d ∈ cs, d.isNonlinear = false := by
        intro d hd
        obtain ⟨d₀, hd₀, -, hdevice⟩ := hmakes d hd
        exact ComponentDescription.isNonlinear_of_device? (hlinear d₀ hd₀) hdevice
      have hload : loadDescription ⟨simulation, ds⟩ s =
          loadComponents cs (s.configured simulation) := by
        simp only [loadDescription_eq, hvalid, Description.toComponents, hcs]
      have hload' : loadDescription ⟨simulation, ds'⟩ s' =
          loadComponents cs' (s'.configured simulation) := by
        simp only [loadDescription_eq, hvalid, Description.toComponents, hcs']
      have hsettings : (s'.configured simulation).settings = (s.configured simulation).settings :=
        rfl
      have hrunning : (s'.configured simulation).running = (s.configured simulation).running :=
        hrunning
      rcases loadComponents_relabelled hsettings hrunning hf' hlinear' hperm with
        ⟨t, t', ht, ht', hrelabels⟩ | ⟨halt, halt', t, t', ht, ht'⟩
      · exact .comesBack t t' (hload.trans ht) (hload'.trans ht') hrelabels
      · exact .halts halt halt' t t' (hload.trans ht) (hload'.trans ht')
    · exact .halts (.failed g) (.failed g') (s.configured simulation) (s'.configured simulation)
        (by simp only [loadDescription_eq, hvalid, Description.toComponents, hg])
        (by simp only [loadDescription_eq, hvalid, Description.toComponents, hg'])

end Loads

/-! ## Runs -/

theorem Call.Relabels.loads {load load' : Call α} (h : Call.Relabels f load load')
    (hsettings : s'.settings = s.settings) (hrunning : s'.running = s.running) (budget : Nat) :
    LoadsRelabelled f none (perform budget load) (perform budget load') s s' := by
  rcases h with ⟨hc, hlinear⟩ | ⟨hf, hlinear, hperm⟩ | ⟨simulation, hf, hlinear, hperm⟩
  · exact (loadCircuit_relabelled hsettings hrunning hc hlinear).andReturn fun _ => none
  · exact (loadComponents_relabelled hsettings hrunning hf hlinear hperm).andReturn fun _ => none
  · exact (loadDescription_relabelled hrunning simulation hf hlinear hperm).andReturn
      fun _ => none

/-- Simulators that are the same but for the ids take the same settings, or refuse them. -/
theorem matching_relabels (f : ComponentId → ComponentId) {call : Call α}
    (hcall : call.isLoad = false) : Matching (Relabelled (α := α) f) fun _ => call := by
  cases call with
  | start => exact .start fun _ => rfl
  | stop => exact .stop fun _ => rfl
  | advance milliseconds => exact .advance milliseconds fun _ => rfl
  | configure settings =>
    refine .other (fun _ _ => nofun) fun budget s hs => Together.andReturn ?_ fun _ => none
    simp only [configure_eq]
    cases settings.validate with
    | error g => exact .error _ s (fun _ => rfl) hs
    | ok u => exact .ok _ _ (fun _ => rfl) (.const ()) { hs with settings := rfl }
  | loadCircuit c => cases hcall
  | loadComponents cs => cases hcall
  | loadDescription d => cases hcall

/-- Ids are only names. Two simulators with the same settings load linear circuits that are the same
but for the ids, which `f` relates without mixing them up. Either both loads end with errors, or the
same calls then attempt the same ticks, and as long as no tick fails in either of the two, the same
calls have the same answers and after each tick and each call both show the same voltages and
currents. -/
theorem runs_relabel {load load' : Call α} (hload : Call.Relabels f load load')
    (hsettings : s'.settings = s.settings) (hrunning : s'.running = s.running) (budget : Nat)
    {calls : List (Nat × Call α)} (hcalls : ∀ c ∈ calls, c.2.isLoad = false) :
    (∃ t t', perform budget load s = .ok none t ∧ perform budget load' s' = .ok none t' ∧
      Relabels f t t' ∧
      Until (InStep (Relabelled f) Succeed) (Stopped (Relabelled f) SomeFails)
        fun i => moments calls (![t, t'] i)) ∨
    ∃ halt halt' t t', perform budget load s = .error halt t ∧
      perform budget load' s' = .error halt' t' := by
  rcases hload.loads hsettings hrunning budget with
    ⟨t, t', ht, ht', hrelabels⟩ | ⟨halt, halt', t, t', ht, ht'⟩
  · left
    have hmatching : ∀ c ∈ calls, Same (fun _ : Fin 2 => c.1) ∧
        Matching (Relabelled f) fun _ => c.2 := by
      intro c hc
      exact ⟨.const c.1, matching_relabels f (hcalls c hc)⟩
    refine ⟨t, t', ht, ht', hrelabels, ?_⟩
    exact (lockstep_relabels f).moments (s := ![t, t']) (Each.const calls hmatching) hrelabels
  · right
    exact ⟨halt, halt', t, t', ht, ht'⟩

/-- A source that drives a capacitor and an inductor through a resistor and a wire. -/
def wired : List (Component ℚ) :=
  [⟨⟨0⟩, "V0", .voltageSource .ground ⟨1⟩ (.constant 6) none⟩,
    ⟨⟨1⟩, "R1", .resistor ⟨1⟩ ⟨2⟩ 2 .intact⟩,
    ⟨⟨2⟩, "W2", .wire ⟨2⟩ ⟨3⟩ none⟩,
    ⟨⟨3⟩, "C3", .capacitor ⟨3⟩ .ground 1⟩,
    ⟨⟨4⟩, "L4", .inductor ⟨3⟩ .ground 1⟩]

/-- Ids that go down where the others go up, so that the wire comes before the source. -/
def backwards (id : ComponentId) : ComponentId := ⟨9 - id.number⟩

theorem runs_relabel_backwards :
    let load : Call ℚ := .loadComponents wired
    let load' : Call ℚ := .loadComponents (wired.map fun d => { d with id := backwards d.id })
    let calls : List (Nat × Call ℚ) := [(2, .start), (2, .advance 10)]
    ∃ t t', perform 2 load .initial = .ok none t ∧ perform 2 load' .initial = .ok none t' ∧
      Relabels backwards t t' ∧
      Until (InStep (Relabelled backwards) Succeed) (Stopped (Relabelled backwards) SomeFails)
        (fun i => moments calls (![t, t'] i)) ∧
      t.circuit.sources.map (·.name) = ["V0", "W2"] ∧
      t'.circuit.sources.map (·.name) = ["W2", "V0"] ∧
      (moments calls t).length = 4 ∧ (moments calls t').length = 4 := by
  intro load load' calls
  have hload : Call.Relabels backwards load load' := by
    refine .components (by decide) (by decide) ?_
    rw [List.map_map]
    exact .rfl
  obtain ⟨answer, hfirst⟩ :=
    exists_of_succeeds (r := perform 2 load .initial) (by decide +kernel)
  have hcalls : ∀ c ∈ calls, c.2.isLoad = false := by simp [calls, Call.isLoad]
  have hsettings : (.initial : Simulator ℚ).settings = (.initial : Simulator ℚ).settings := rfl
  rcases runs_relabel hload hsettings rfl 2 hcalls with
    ⟨t, t', ht, ht', hrelabels, hsteps⟩ | ⟨halt, halt', t, t', ht, -⟩
  · have hafter : t = after (perform 2 load .initial) := by
      rw [ht]
      rfl
    have hafter' : t' = after (perform 2 load' .initial) := by
      rw [ht']
      rfl
    refine ⟨t, t', ht, ht', hrelabels, hsteps, ?_⟩
    rw [hafter, hafter']
    decide +kernel
  · cases hfirst.symm.trans ht

end Simulator

end Nodal
