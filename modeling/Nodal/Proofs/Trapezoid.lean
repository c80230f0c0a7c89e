import Nodal.Proofs.Failures
import Nodal.Proofs.Stored

/-! # The trapezoidal rule over a run

A companion is made so that the current through a capacitor, averaged over the tick, changes its
voltage, and the voltage across an inductor its current. What the companion remembers is the state
stored before, so the rule goes on from tick to tick, and over consecutive ticks from zero it adds
up. -/

namespace Nodal
variable {α : Type} [ExactScalar α]

/-! ## Companions -/

namespace Companion
variable (component : String) (previous : ComponentState α) {timestep : α}

/-- The companion of a capacitor lets the mean of the currents before and after charge it. -/
theorem capacitor_charges {capacitance : α} (hc : 0 < capacitance) (ht : 0 < timestep) :
    ∃ k, capacitor component capacitance timestep previous = .ok k ∧ ∀ v w,
      capacitance * (v - w - previous.voltageAcross) =
        timestep / 2 * (k.current v w + previous.current) := by
  refine ⟨_, capacitor_ok component previous hc ht, fun v w => ?_⟩
  simp only [current]
  field_simp
  ring

theorem inductor_charges {inductance : α} (hl : 0 < inductance) (ht : 0 < timestep) :
    ∃ k, inductor component inductance timestep previous = .ok k ∧ ∀ v w,
      inductance * (k.current v w - previous.current) =
        timestep / 2 * (v - w + previous.voltageAcross) := by
  refine ⟨_, inductor_ok component previous hl ht, fun v w => ?_⟩
  simp only [current]
  field_simp
  ring

end Companion

namespace Simulator
variable {s s' : Simulator α} {budget : Nat}

/-! ## What is stored for a pair of nodes -/

/-- The voltage stored for a component, first node against second. -/
def across (s : Simulator α) (id : ComponentId) : α :=
  ((s.componentState? id).getD .empty).voltageAcross

/-- The first current stored for a component. -/
def through (s : Simulator α) (id : ComponentId) : α :=
  ((s.componentState? id).getD .empty).current

/-- Two voltages and one current are stored for the component. -/
def HasPair (s : Simulator α) (id : ComponentId) : Prop :=
  ∃ v w i, s.componentState? id = some ⟨[v, w], [i]⟩ ∧ s.across id = v - w ∧ s.through id = i

/-- The ticks since the last load or failure. -/
def recent (log : List (Event α)) : List (Simulator α × Simulator α) :=
  log.foldl (fun ticks event =>
    match event with
    | .ticked before after => ticks ++ [(before, after)]
    | .failed _ | .loaded => []) []

/-- The sum of a value over ticks by the trapezoidal rule. -/
def trapezoid (value : Simulator α → α) (ticks : List (Simulator α × Simulator α)) : α :=
  (ticks.map fun (before, after) =>
    before.settings.timestep / 2.0 * (value after + value before)).sum

/-- The component keeps `factor` times one of its quantities, to which a tick adds the other. -/
inductive Sums (d : Component α) : α → (Simulator α → α) → (Simulator α → α) → Prop
  | capacitor {a b : Node} {capacitance : α} : d.device = .capacitor a b capacitance →
      Sums d capacitance (fun s => s.across d.id) fun s => s.through d.id
  | inductor {a b : Node} {inductance : α} : d.device = .inductor a b inductance →
      Sums d inductance (fun s => s.through d.id) fun s => s.across d.id

variable {d : Component α} {factor : α} {kept value : Simulator α → α}

/-- A tick that succeeds takes a positive time. -/
theorem timestep_pos_of_tick (ht : tick budget s = .ok () s') : 0 < s.settings.timestep := by
  obtain ⟨e₀, companions, e, x, state, newton, -, hstamp, -, -, -⟩ := tick_inv ht
  exact (Scalar.isPositive_iff _).1 (Circuit.positive_of_stampTick hstamp)

/-- One tick obeys the trapezoidal rule against the state stored before it. -/
theorem Sums.tick (h : Sums d factor kept value) (hs : s.Consistent)
    (hd : d ∈ s.circuit.components) (ht : Simulator.tick budget s = .ok () s') :
    factor * (kept s' - kept s) = s.settings.timestep / 2 * (value s' + value s) := by
  have hpos := timestep_pos_of_tick ht
  obtain ⟨e₀, companions, e, x, state, newton, he, hstamp, -, hstate, rfl⟩ := tick_inv ht
  have hstatic := hs.staticEquation_eq he
  obtain ⟨l, hstamped⟩ := Circuit.stamped_of_stampTick hs.numbered hstatic hstamp
  obtain ⟨l', blank, hpart⟩ := Circuit.staticPart hs.numbered hstatic
  rw [hstamped.deriveState_eq] at hstate
  cases hstate
  have hcheck := hpart.checks d hd
  have hget := hstamped.get?_state x hd
  obtain ⟨id, name, device⟩ := d
  cases h with
  | capacitor hdevice =>
    cases hdevice
    obtain ⟨k, hk, hlaw⟩ := Companion.capacitor_charges name ((s.state.get? id).getD .empty)
      (requirePositive_eq_ok.1 hcheck) hpos
    simp only [Circuit.stateOf, Circuit.companionOf, Component.companion?, hk] at hget
    simp only [across, through, componentState?, hget]
    exact hlaw _ _
  | inductor hdevice =>
    cases hdevice
    obtain ⟨k, hk, hlaw⟩ := Companion.inductor_charges name ((s.state.get? id).getD .empty)
      (requirePositive_eq_ok.1 hcheck) hpos
    simp only [Circuit.stateOf, Circuit.companionOf, Component.companion?, hk] at hget
    simp only [across, through, componentState?, hget]
    exact hlaw _ _

/-! ## Consecutive ticks -/

section Recent
omit [ExactScalar α]

theorem recent_ticked (log : List (Event α)) (before after : Simulator α) :
    recent (log ++ [.ticked before after]) = recent log ++ [(before, after)] := by
  simp [recent]

theorem recent_failed (log : List (Event α)) (f : Failure α) :
    recent (log ++ [.failed f]) = [] := by
  simp [recent]

theorem recent_loaded (log : List (Event α)) : recent (log ++ [.loaded]) = [] := by
  simp [recent]

end Recent

theorem trapezoid_append (value : Simulator α → α) (ticks : List (Simulator α × Simulator α))
    (before after : Simulator α) :
    trapezoid value (ticks ++ [(before, after)]) = trapezoid value ticks +
      before.settings.timestep / 2 * (value after + value before) := by
  simp [trapezoid, Scalar.two_exact]

/-- Only the state matters. -/
theorem Sums.of_state_eq (h : Sums d factor kept value) (hs : s'.state = s.state) :
    kept s' = kept s ∧ value s' = value s := by
  cases h <;> simp only [across, through, componentState?, hs, and_self]

theorem Zeroed.shown (hs : s.Zeroed) (id : ComponentId) : s.across id = 0 ∧ s.through id = 0 := by
  simp only [across, through, componentState?, CircuitState.get?]
  cases hget : s.state.lookup id with
  | none => exact ⟨rfl, rfl⟩
  | some shown =>
    obtain ⟨_, _, hstate, -⟩ := List.lookup_eq_some_iff.1 hget
    obtain ⟨hvoltages, hcurrents⟩ := hs.state (id, shown) (by rw [hstate]; simp)
    obtain ⟨voltages, currents⟩ := shown
    constructor
    · rcases voltages with _ | ⟨v, _ | ⟨w, voltages⟩⟩
      · rfl
      · rfl
      · show v - w = 0
        rw [hvoltages v (by simp), hvoltages w (by simp), sub_zero]
    · cases currents with
      | nil => rfl
      | cons i currents => exact hcurrents i List.mem_cons_self

theorem Sums.zeroed (h : Sums d factor kept value) (hs : s.Zeroed) : kept s = 0 := by
  cases h with
  | capacitor => exact (hs.shown d.id).1
  | inductor => exact (hs.shown d.id).2

/-- The state of a component with two nodes and one current. -/
theorem Stored.pair (hs : s.Stored) (hc : s.circuit.Numbered) (hd : d ∈ s.circuit.components)
    {a b : Node} (hnodes : d.device.nodes = [a, b]) (hone : d.device.numCurrents = 1) :
    ∃ i, s.componentState? d.id = some ⟨[s.nodeVoltage a, s.nodeVoltage b], [i]⟩ := by
  obtain ⟨⟨voltages, currents⟩, hget, -, hvoltages, hcurrents⟩ :=
    Circuit.get?_of_agrees hs hc.nodup_ids hd
  obtain ⟨i, rfl⟩ := List.length_eq_one_iff.1 (hcurrents.trans hone)
  simp only [Component.nodes, hnodes, List.map_cons, List.map_nil] at hvoltages
  subst hvoltages
  exact ⟨i, hget⟩

theorem Stored.hasPair (hs : s.Stored) (hc : s.circuit.Numbered) (hd : d ∈ s.circuit.components)
    {a b : Node} (hnodes : d.device.nodes = [a, b]) (hone : d.device.numCurrents = 1) :
    s.HasPair d.id := by
  obtain ⟨i, hshown⟩ := hs.pair hc hd hnodes hone
  exact ⟨_, _, i, hshown, by rw [across, hshown]; rfl, by rw [through, hshown]; rfl⟩

theorem Sums.hasPair (h : Sums d factor kept value) (hs : s.Stored) (hc : s.circuit.Numbered)
    (hd : d ∈ s.circuit.components) : s.HasPair d.id := by
  cases h with
  | capacitor hdevice => exact hs.hasPair hc hd (by rw [hdevice]; rfl) (by rw [hdevice]; rfl)
  | inductor hdevice => exact hs.hasPair hc hd (by rw [hdevice]; rfl) (by rw [hdevice]; rfl)

/-- Since the last load or failure every component has summed up its ticks. -/
def Accumulated (log : List (Event α)) (s : Simulator α) : Prop :=
  ∀ d ∈ s.circuit.components, ∀ factor kept value, Sums d factor kept value →
    factor * kept s = trapezoid value (recent log)

/-- What the last tick of a log has done to the capacitors and inductors. -/
structure Integrated (log : List (Event α)) (before after : Simulator α) : Prop where
  tick : ∃ budget, Simulator.tick budget before = .ok () after
  pairs : ∀ d ∈ before.circuit.components, ∀ factor kept value, Sums d factor kept value →
    before.HasPair d.id ∧ after.HasPair d.id
  rule : ∀ d ∈ before.circuit.components, ∀ factor kept value, Sums d factor kept value →
    factor * (kept after - kept before) =
      before.settings.timestep / 2 * (value after + value before)
  sum : ∀ d ∈ before.circuit.components, ∀ factor kept value, Sums d factor kept value →
    factor * kept after = trapezoid value (recent log)

/-- The simulator at the end of a log, all of whose ticks have integrated. -/
structure Integrating (log : List (Event α)) (s : Simulator α) : Prop where
  consistent : s.Consistent
  stored : s.Stored
  accumulated : Accumulated log s
  integrated : ∀ done before after, done ++ [.ticked before after] <+: log →
    Integrated (done ++ [.ticked before after]) before after

namespace Integrating
variable {log log' : List (Event α)}

/-- Nothing but the circuit and what is stored matters. -/
theorem of_eq (hs : Integrating log s) (hcircuit : s'.circuit = s.circuit)
    (hequation : s'.equation = s.equation) (hstate : s'.state = s.state)
    (hsolution : s'.solution = s.solution) : Integrating log s' := by
  refine ⟨hs.consistent.of_eq hcircuit hequation, ?_, ?_, hs.integrated⟩
  · have hvoltage : s'.nodeVoltage = s.nodeVoltage := by
      funext n
      rw [nodeVoltage, hsolution, nodeVoltage]
    unfold Stored
    rw [hvoltage, hcircuit, hstate]
    exact hs.stored
  · intro d hd factor kept value h
    rw [(h.of_state_eq hstate).1]
    exact hs.accumulated d (hcircuit ▸ hd) factor kept value h

/-- After a load or a failure everything starts from zero. -/
theorem restart (hs : Integrating log s) {event : Event α}
    (hevent : ∀ before after, event ≠ .ticked before after)
    (hconsistent : s'.Consistent) (hstored : s'.Stored) (hzeroed : s'.Zeroed) :
    Integrating (log ++ [event]) s' := by
  refine ⟨hconsistent, hstored, fun d _ factor kept value h => ?_,
    fun done before after hdone => ?_⟩
  · have hrecent : recent (log ++ [event]) = [] := by
      cases event with
      | ticked before after => exact absurd rfl (hevent before after)
      | failed f => exact recent_failed log f
      | loaded => exact recent_loaded log
    rw [h.zeroed hzeroed, hrecent, mul_zero]
    rfl
  · rcases List.prefix_concat_iff.1 hdone with hlast | hdone
    · obtain ⟨-, hlast⟩ := List.append_inj' hlast rfl
      exact absurd (List.singleton_inj.1 hlast).symm (hevent before after)
    · exact hs.integrated done before after hdone

theorem tick (hs : Integrating log s) (ht : Simulator.tick budget s = .ok () s') :
    Integrating (log ++ [.ticked s s']) s' := by
  have hconsistent := hs.consistent.tick ht
  have hstored := hs.consistent.stored_tick ht
  have hcircuit := circuit_of_tick ht
  have hsum : ∀ d ∈ s.circuit.components, ∀ factor kept value, Sums d factor kept value →
      factor * kept s' = trapezoid value (recent (log ++ [.ticked s s'])) := by
    intro d hd factor kept value h
    rw [recent_ticked, trapezoid_append, ← hs.accumulated d hd factor kept value h,
      ← h.tick hs.consistent hd ht]
    ring
  refine ⟨hconsistent, hstored, fun d hd => hsum d (hcircuit ▸ hd),
    fun done before after hdone => ?_⟩
  rcases List.prefix_concat_iff.1 hdone with hlast | hdone
  · obtain ⟨rfl, hevent⟩ := List.append_inj' hlast rfl
    cases hevent
    refine ⟨⟨budget, ht⟩, fun d hd factor kept value h => ?_, fun d hd factor kept value h =>
      h.tick hs.consistent hd ht, hsum⟩
    exact ⟨h.hasPair hs.stored hs.consistent.numbered hd,
      h.hasPair hstored hconsistent.numbered (hcircuit ▸ hd)⟩
  · exact hs.integrated done before after hdone

theorem receive (hs : Integrating log s) (milliseconds : α) :
    Integrating log (s.receive milliseconds) :=
  hs.of_eq rfl rfl rfl rfl

theorem ticks {threshold : α} (hs : Integrating log s) (h : Ticks threshold budget s log' s') :
    Integrating (log ++ log') s' := by
  induction h generalizing log with
  | done s => rwa [List.append_nil]
  | more _ ht _ ih =>
    rw [List.append_cons]
    exact ih ((hs.tick ht).of_eq rfl rfl rfl rfl)

theorem step (hs : Integrating log s) (h : Step s log' s') : Integrating (log ++ log') s' := by
  have hconsistent := hs.consistent.step h
  cases h with
  | idle => rwa [List.append_nil]
  | configured =>
    rw [List.append_nil]
    exact hs.of_eq rfl rfl rfl rfl
  | switched =>
    rw [List.append_nil]
    exact hs.of_eq rfl rfl rfl rfl
  | loaded => exact hs.restart (by rintro _ _ ⟨⟩) hconsistent (stored_reset _) (zeroed_reset _)
  | refused => exact hs.restart (by rintro _ _ ⟨⟩) hconsistent (stored_reset _) (zeroed_reset _)
  | waited =>
    rw [List.append_nil]
    exact hs.of_eq rfl rfl rfl rfl
  | advanced _ _ _ hticks _ =>
    exact ((hs.receive _).ticks hticks).of_eq rfl rfl rfl rfl
  | failed _ _ hticks _ _ =>
    rw [← List.append_assoc]
    have h₁ := (hs.receive _).ticks hticks
    exact h₁.restart (by rintro _ _ ⟨⟩) hconsistent (stored_reset _)
      ⟨(zeroed_reset _).state, (zeroed_reset _).solution⟩

end Integrating

theorem Run.integrating {log : List (Event α)} (h : Run log s) : Integrating log s :=
  h.induction (P := Integrating)
    ⟨⟨Circuit.numbered_unloaded, rfl⟩, .nil, nofun, fun done before after hdone => by
      have := hdone.length_le
      simp at this⟩
    fun hs h => hs.step h

/-- In every run each successful tick obeys the trapezoidal rule against the state stored before it,
and what a capacitor or an inductor keeps is the trapezoidal sum over the ticks since the last load
or failure. -/
theorem ticks_trapezoidal {log done : List (Event α)} {before after : Simulator α}
    (h : Run log s) (hdone : done ++ [.ticked before after] <+: log) :
    (∃ budget, Simulator.tick budget before = .ok () after) ∧
    ∀ d ∈ before.circuit.components,
      (∀ a b capacitance, d.device = .capacitor a b capacitance →
        before.HasPair d.id ∧ after.HasPair d.id ∧
        capacitance * (after.across d.id - before.across d.id) =
          before.settings.timestep / 2 * (after.through d.id + before.through d.id) ∧
        capacitance * after.across d.id =
          trapezoid (·.through d.id) (recent (done ++ [.ticked before after]))) ∧
      ∀ a b inductance, d.device = .inductor a b inductance →
        before.HasPair d.id ∧ after.HasPair d.id ∧
        inductance * (after.through d.id - before.through d.id) =
          before.settings.timestep / 2 * (after.across d.id + before.across d.id) ∧
        inductance * after.through d.id =
          trapezoid (·.across d.id) (recent (done ++ [.ticked before after])) := by
  have hlast := h.integrating.integrated done before after hdone
  refine ⟨hlast.tick, fun d hd =>
    ⟨fun a b capacitance hdevice => ?_, fun a b inductance hdevice => ?_⟩⟩
  · have hsums := Sums.capacitor hdevice
    obtain ⟨hbefore, hafter⟩ := hlast.pairs d hd _ _ _ hsums
    exact ⟨hbefore, hafter, hlast.rule d hd _ _ _ hsums, hlast.sum d hd _ _ _ hsums⟩
  · have hsums := Sums.inductor hdevice
    obtain ⟨hbefore, hafter⟩ := hlast.pairs d hd _ _ _ hsums
    exact ⟨hbefore, hafter, hlast.rule d hd _ _ _ hsums, hlast.sum d hd _ _ _ hsums⟩

/-- A source that charges a capacitor and an inductor through a resistor. -/
def resonating : List (Component ℚ) :=
  [⟨⟨0⟩, "V0", .voltageSource .ground ⟨1⟩ (.constant 6) none⟩,
    ⟨⟨1⟩, "R1", .resistor ⟨1⟩ ⟨2⟩ 2 .intact⟩,
    ⟨⟨2⟩, "C2", .capacitor ⟨2⟩ .ground 1⟩,
    ⟨⟨3⟩, "L3", .inductor ⟨2⟩ .ground 1⟩]

/-- After two ticks the capacitor has the charge of both. -/
theorem ticks_trapezoidal_resonating :
    ∃ (log : List (Event ℚ)) (before after s : Simulator ℚ),
      Run (log ++ [.ticked before after]) s ∧ (recent log).length = 1 ∧ 0 < after.across ⟨2⟩ ∧
      1 * after.across ⟨2⟩ =
        trapezoid (·.through ⟨2⟩) (recent (log ++ [.ticked before after])) := by
  have hfound : (match replay 2 [.loadComponents resonating, .start, .advance 10] [] .initial with
      | some (log, _) =>
        match log.getLast? with
        | some (.ticked before after) =>
          match before.circuit.get? ⟨2⟩ with
          | some d =>
            match d.device with
            | .capacitor _ _ c =>
              c = 1 && (recent log).length = 2 && 0 < after.across ⟨2⟩
            | _ => false
          | none => false
        | some (.failed _) => false
        | some .loaded => false
        | none => false
      | none => false) = true := by decide +kernel
  split at hfound
  case h_2 => cases hfound
  rename_i log s hreplay
  split at hfound
  case h_2 | h_3 | h_4 => cases hfound
  rename_i before after hlast
  split at hfound
  case h_2 => cases hfound
  rename_i d hget
  split at hfound
  case h_2 => cases hfound
  rename_i a b c hdevice
  simp only [Bool.and_eq_true, decide_eq_true_eq] at hfound
  obtain ⟨⟨rfl, hlength⟩, hpos⟩ := hfound
  obtain ⟨log, rfl⟩ := List.getLast?_eq_some_iff.1 hlast
  rw [recent_ticked, List.length_append] at hlength
  have hid : d.id = ⟨2⟩ := by simpa using List.find?_some hget
  have hrun := Run.initial.replay (by simp [Call.Proper]) hreplay
  obtain ⟨-, hticks⟩ := ticks_trapezoidal hrun List.prefix_rfl
  obtain ⟨-, -, -, hsum⟩ := (hticks d (List.mem_of_find?_eq_some hget)).1 a b 1 hdevice
  rw [hid] at hsum
  exact ⟨log, before, after, s, hrun, Nat.succ_inj.1 hlength, hpos, hsum⟩

end Simulator

end Nodal
