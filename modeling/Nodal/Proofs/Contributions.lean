import Nodal.Proofs.Laws

/-! # What a component contributes to a tick

In the row of a node a component contributes the currents that it draws from the node, and in its
own row what its voltages miss, both as its state tells them after the tick. Its stamps add this
contribution exactly once: with the static equation, with the tick, or at each trial solution. -/

namespace Nodal
variable {α : Type} [ExactScalar α]

theorem requirePositive_eq_ok {component parameter : String} {v : α} :
    requirePositive component parameter v = .ok () ↔ 0 < v := by
  unfold requirePositive
  split
  · rename_i h
    exact iff_of_true rfl ((Scalar.isPositive_iff v).1 h)
  · rename_i h
    exact iff_of_false nofun fun hv => h ((Scalar.isPositive_iff v).2 hv)

namespace Companion
variable (component : String) (previous : ComponentState α) {timestep : α}

theorem capacitor_ok {capacitance : α} (hc : 0 < capacitance) (ht : 0 < timestep) :
    capacitor component capacitance timestep previous = .ok ⟨2 * capacitance / timestep,
      previous.current + 2 * capacitance / timestep * previous.voltageAcross⟩ := by
  rw [capacitor, requirePositive_eq_ok.2 hc, requirePositive_eq_ok.2 ht, Scalar.two_exact]
  rfl

theorem inductor_ok {inductance : α} (hl : 0 < inductance) (ht : 0 < timestep) :
    inductor component inductance timestep previous = .ok ⟨timestep / (2 * inductance),
      -(previous.current + timestep / (2 * inductance) * previous.voltageAcross)⟩ := by
  rw [inductor, requirePositive_eq_ok.2 hl, requirePositive_eq_ok.2 ht, Scalar.two_exact]
  rfl

end Companion

/-! ## States -/

theorem Solution.voltage_eq (x : List α) (k : Nat) (n : Node) :
    (⟨0 :: x, k⟩ : Solution α).voltage n = voltageIn x n := by
  rw [voltage, voltageIn, Node.row?]
  by_cases hn : n.number = 0
  · simp [hn, Node.isGround, unknownAt]
  · obtain ⟨j, hj⟩ := Nat.exists_eq_succ_of_ne_zero (Node.toNat_ne_zero (by simpa [Node.isGround]))
    simp [Node.isGround, hn, unknownAt, hj]

theorem Solution.branchCurrent_eq (x : List α) (l : Layout) {b : Branch}
    (hb : b.number < l.numSources) :
    (⟨0 :: x, l.numNodes⟩ : Solution α).branchCurrent b = x.getD (l.branchRow b) 0 := by
  have h1 := l.branchRow_lt hb
  have h2 := l.size_lt
  have h3 : Equation.sizeLimit + 1 < UInt64.size := by decide
  rw [branchCurrent, l.position_current hb, Nat.mod_eq_of_lt (by unfold Layout.size at h1; omega)]
  rfl

namespace Component

/-- The companion of a tick, for a component that has one. -/
def companion? (d : Component α) (timestep : α) (previous : ComponentState α) :
    Option (Companion α) :=
  match d.device with
  | .capacitor _ _ capacitance =>
    (Companion.capacitor d.name capacitance timestep previous).toOption
  | .inductor _ _ inductance =>
    (Companion.inductor d.name inductance timestep previous).toOption
  | _ => none

/-- What a component with this companion shows of a solution. -/
def tickState (d : Component α) (s : Solution α) (companion : Option (Companion α)) :
    ComponentState α :=
  let voltages := d.nodes.map s.voltage
  match companion with
  | some k => ⟨voltages, [k.current (voltages.getD 0 0) (voltages.getD 1 0)]⟩
  | none => ⟨voltages, d.currents s⟩

@[simp] theorem voltages_tickState (d : Component α) (s : Solution α)
    (companion : Option (Companion α)) :
    (d.tickState s companion).voltages = d.nodes.map s.voltage := by
  cases companion <;> rfl

theorem componentState_eq {d : Component α} {s : Solution α} {companions : Circuit.Companions α}
    {timestep : α} {previous : ComponentState α}
    (h : companions.lookup d.id = d.companion? timestep previous) :
    Circuit.componentState s companions d =
      .ok (d.tickState s (d.companion? timestep previous)) := by
  obtain ⟨id, name, device⟩ := d
  rw [Circuit.componentState, h]
  cases device with
  | capacitor a b capacitance =>
    simp only [companion?]
    cases (Companion.capacitor name capacitance timestep previous).toOption <;> rfl
  | inductor a b inductance =>
    simp only [companion?]
    cases (Companion.inductor name inductance timestep previous).toOption <;> rfl
  | _ => rfl

/-! ## Contributions -/

/-- What the component draws in row `i`, and in its own row what its voltages miss. -/
def contribution (l : Layout) (time : α) (d : Component α) (state : ComponentState α) (i : Nat) :
    α :=
  (List.zipWith (fun (a, b) current => pathRow a b current i) d.device.paths state.currents).sum +
    atRow (d.device.branch?.map l.branchRow) (d.device.violation time state.voltages) i

section Paths
variable {l : Layout} {d : Component α} {state : ComponentState α} {a b : Node} {current : α}

theorem contribution_path (hpaths : d.device.paths = [(a, b)]) (hbranch : d.device.branch? = none)
    (hcurrents : state.currents = [current]) (time : α) (i : Nat) :
    d.contribution l time state i = pathRow a b current i := by
  simp [contribution, hpaths, hbranch, hcurrents, atRow]

theorem contribution_source {k : Branch} (hpaths : d.device.paths = [(a, b)])
    (hbranch : d.device.branch? = some k) (hcurrents : state.currents = [current]) (time : α)
    (i : Nat) :
    d.contribution l time state i = pathRow a b current i +
      atRow (some (l.branchRow k)) (d.device.violation time state.voltages) i := by
  simp [contribution, hpaths, hbranch, hcurrents]

end Paths

end Component

theorem pathRow_zero (a b : Node) (i : Nat) : pathRow a b (0 : α) i = 0 := by
  simp [pathRow, atRow]

/-- Whether all that the device contributes stands in the static equation. -/
def Device.isStatic : Device α → Bool
  | .voltageSource _ _ waveform _ => !waveform.isTimeVarying
  | .capacitor .. | .inductor .. | .diode .. | .mosfet .. => false
  | _ => true

theorem Device.isNonlinear_static {α : Type} {d : Device α} (h : d.isStatic) :
    d.isNonlinear = false := by
  cases d <;> first | rfl | cases h

/-- A resistor has a resistance above zero. -/
def Device.Checked : Device α → Prop
  | .resistor _ _ resistance fault => 0 < fault.effective resistance
  | _ => True

namespace Stamping.Adds
variable {l : Layout} {β : Type}

theorem check {r : Except (Failure α) β} :
    Adds l (Stamping.check r) (fun _ _ => 0) fun b => r = .ok b := by
  cases r with
  | ok b => exact pure rfl
  | error f => exact throw _

/-- What comes after a check adds the same without it. -/
theorem after_check {γ : Type} {r : Except (Failure α) β} {f : β → Stamping α γ}
    {w : List α → Nat → α} {Q : γ → Prop} (hf : ∀ b, r = .ok b → Adds l (f b) w Q) :
    Adds l (Stamping.check r >>= f) w Q :=
  (check.bind hf).congr fun _ _ => zero_add _

end Stamping.Adds

open Stamping

theorem Companion.stamp_adds {l : Layout} {a b : Node} (k : Companion α)
    (ha : a.number.toNat < l.numNodes) (hb : b.number.toNat < l.numNodes) :
    Adds l (k.stamp a b) (fun x => pathRow a b (k.current (voltageIn x a) (voltageIn x b)))
      fun _ => True := by
  unfold stamp
  refine ((Equation.stampConductance_adds k.conductance ha hb).bind fun _ _ =>
    Equation.stampCurrentSource_adds k.history).congr fun x i => ?_
  simp only [pathRow, atRow, current]
  split <;> split <;> ring

namespace Component
variable {l : Layout} {d : Component α}

theorem stampVoltage_adds {a b : Node} {branch : Branch} (v : α) (ha : a.number.toNat < l.numNodes)
    (hb : b.number.toNat < l.numNodes) (hk : branch.number < l.numSources) :
    Adds l (d.stampVoltage v a b (some branch))
      (fun x i => pathRow a b (x.getD (l.branchRow branch) 0) i +
        atRow (some (l.branchRow branch)) (voltageIn x b - voltageIn x a - v) i) fun _ => True := by
  unfold stampVoltage
  refine Adds.after_check fun k hk' => ?_
  cases hk'
  refine ((Equation.stampVoltageSource_adds v hk ha hb).bind fun _ _ =>
    .pure trivial).congr fun x i => add_zero _

/-- A device with two nodes and a row of its own contributes the current in that row, and there
what the voltage misses. -/
theorem stampVoltage_contributes {a b : Node} {branch : Option Branch} (voltage time : α)
    (h : d.Fits l) (hnodes : d.device.nodes = [a, b]) (hpaths : d.device.paths = [(a, b)])
    (hbranch : d.device.branch? = branch) (hsources : d.device.numSources ≠ 0)
    (hcurrents : ∀ s, d.currents s = [branchCurrent s branch])
    (hviolation : ∀ v w, d.device.violation time [v, w] = w - v - voltage) :
    Adds l (d.stampVoltage voltage a b branch)
      (fun x => d.contribution l time (d.tickState ⟨0 :: x, l.numNodes⟩ none)) fun _ => True := by
  obtain ⟨ha, hb⟩ := h.pair hnodes
  obtain ⟨k, hk, hlt⟩ := h.branch hsources
  obtain rfl : some k = branch := hk.symm.trans hbranch
  refine (stampVoltage_adds voltage ha hb hlt).congr fun x i => ?_
  rw [contribution_source hpaths hk (hcurrents _)]
  simp [Component.nodes, hnodes, hviolation, Solution.voltage_eq, branchCurrent,
    Solution.branchCurrent_eq x l hlt]

/-- The inputs of an op-amp carry no current, and its output takes its current from ground. -/
theorem opAmp_contributes {plus minus output : Node} {gain : α} {branch : Option Branch}
    (h : d.Fits l) (hdevice : d.device = .opAmp plus minus output gain branch) (time : α) :
    Adds l d.stamp
      (fun x => d.contribution l time (d.tickState ⟨0 :: x, l.numNodes⟩ none)) fun _ => True := by
  obtain ⟨id, name, device⟩ := d
  cases hdevice
  obtain ⟨hp, hm, ho⟩ := h.triple rfl
  obtain ⟨k, hk, hlt⟩ := h.branch Nat.one_ne_zero
  cases hk
  have hground : Node.ground.number.toNat < l.numNodes :=
    Nat.lt_of_lt_of_le (by decide : 0 < minNodes) l.two_le
  refine Adds.after_check fun _ _ => Adds.after_check fun k' hk' => ?_
  cases hk'
  refine ((Equation.stampControlledSource_adds gain hlt ho hground hp hm).bind fun _ _ =>
    .pure trivial).congr fun x i => ?_
  have hg : voltageIn x .ground = 0 := rfl
  simp [contribution, tickState, currents, branchCurrent, Device.paths, Device.branch?,
    Component.nodes, Device.nodes, Solution.voltage_eq, pathRow_zero, hg,
    Solution.branchCurrent_eq x l hlt, Device.violation]

/-- The static equation holds what static components contribute, whatever the time. -/
theorem stamp_adds (h : d.Fits l) (time : α) :
    Adds l d.stamp
      (fun x i => if d.device.isStatic then
        d.contribution l time (d.tickState ⟨0 :: x, l.numNodes⟩ none) i else 0)
      fun _ => d.device.Checked := by
  obtain ⟨id, name, device⟩ := d
  cases device with
  | resistor a b resistance fault =>
    obtain ⟨ha, hb⟩ := h.pair rfl
    refine Adds.after_check fun _ _ =>
      (Equation.stampResistor_adds (fault.effective resistance) ha hb).congr fun x i => ?_
    simp only [Device.isStatic, if_true]
    rw [contribution_path rfl rfl rfl, Solution.voltage_eq, Solution.voltage_eq]
  | wire a b branch =>
    exact stampVoltage_contributes 0 time h rfl rfl rfl Nat.one_ne_zero (fun _ => rfl)
      fun v w => (sub_zero (w - v)).symm
  | voltageSource a b waveform branch =>
    cases waveform with
    | sine => exact .pure trivial
    | constant voltage =>
      exact stampVoltage_contributes voltage time h rfl rfl rfl Nat.one_ne_zero (fun _ => rfl)
        fun _ _ => rfl
  | currentSource a b current =>
    refine ((Equation.stampCurrentSource_adds current).congr fun x i => ?_).mono fun _ _ => trivial
    simp only [Device.isStatic, if_true]
    rw [contribution_path rfl rfl rfl]
  | opAmp plus minus output gain branch => exact opAmp_contributes h rfl time
  | capacitor | inductor | diode | mosfet => exact Adds.check.mono fun _ _ => trivial

/-- Instead of a current of its own the component has that of its companion. -/
theorem contribution_companion {a b : Node} (hnodes : d.device.nodes = [a, b])
    (hpaths : d.device.paths = [(a, b)]) (hbranch : d.device.branch? = none)
    (hcurrents : ∀ s, d.currents s = [0]) (companion : Option (Companion α)) (time : α) (x : List α)
    (k i : Nat) :
    d.contribution l time (d.tickState ⟨0 :: x, k⟩ companion) i =
      companion.elim 0 fun k => pathRow a b (k.current (voltageIn x a) (voltageIn x b)) i := by
  cases companion with
  | none => rw [contribution_path hpaths hbranch (hcurrents _), pathRow_zero, Option.elim_none]
  | some m =>
    rw [contribution_path hpaths hbranch rfl]
    simp [Component.nodes, hnodes, Solution.voltage_eq]

theorem stampCompanion_adds {a b : Node} {made : Except (Failure α) (Companion α)}
    (ha : a.number.toNat < l.numNodes) (hb : b.number.toNat < l.numNodes) :
    Adds l (stampCompanion made a b)
      (fun x i => made.toOption.elim 0 fun k =>
        pathRow a b (k.current (voltageIn x a) (voltageIn x b)) i)
      fun kept => kept = made.toOption := by
  refine Adds.after_check fun k hk => ?_
  subst hk
  refine Adds.congr ((k.stamp_adds ha hb).bind fun _ _ => ?_) fun x i => add_zero _
  exact .pure rfl

/-- A tick stamps what the others contribute, but for those that are not linear. -/
theorem stampDynamic_adds (h : d.Fits l) (timestep time : α) (previous : ComponentState α) :
    Adds l (d.stampDynamic timestep time previous)
      (fun x i => if d.device.isStatic || d.device.isNonlinear then 0
        else d.contribution l time
          (d.tickState ⟨0 :: x, l.numNodes⟩ (d.companion? timestep previous)) i)
      fun kept => kept = d.companion? timestep previous := by
  obtain ⟨id, name, device⟩ := d
  cases device with
  | voltageSource a b waveform branch =>
    cases waveform with
    | constant voltage => exact .pure rfl
    | sine voltage frequency zeroTime =>
      have hstamp := stampVoltage_contributes
        ((Waveform.sine voltage frequency zeroTime).valueAt time) time h rfl rfl rfl
        Nat.one_ne_zero (fun _ => rfl) fun _ _ => rfl
      exact Adds.congr (hstamp.bind fun _ _ => .pure rfl) fun x i => add_zero _
  | capacitor a b capacitance =>
    obtain ⟨ha, hb⟩ := h.pair rfl
    refine (stampCompanion_adds ha hb).congr fun x i => ?_
    simp only [Device.isStatic, Device.isNonlinear, Bool.or_self, Bool.false_eq_true, if_false]
    rw [contribution_companion rfl rfl rfl fun _ => rfl]
    rfl
  | inductor a b inductance =>
    obtain ⟨ha, hb⟩ := h.pair rfl
    refine (stampCompanion_adds ha hb).congr fun x i => ?_
    simp only [Device.isStatic, Device.isNonlinear, Bool.or_self, Bool.false_eq_true, if_false]
    rw [contribution_companion rfl rfl rfl fun _ => rfl]
    rfl
  | _ => exact .pure rfl

/-! ## Rows of nodes and rows of sources -/

theorem sum_zipWith_congr {β : Type} {f g : Node × Node → β → α} {ps : List (Node × Node)}
    (h : ∀ p ∈ ps, ∀ c, f p c = g p c) (cs : List β) :
    (List.zipWith f ps cs).sum = (List.zipWith g ps cs).sum := by
  induction ps generalizing cs with
  | nil => rfl
  | cons p ps ih =>
    cases cs with
    | nil => rfl
    | cons c cs =>
      simp only [List.zipWith_cons_cons, List.sum_cons, h p List.mem_cons_self,
        ih (fun p hp => h p (List.mem_cons_of_mem _ hp))]

theorem sum_zipWith_eq_zero {β : Type} {f : Node × Node → β → α} {ps : List (Node × Node)}
    (h : ∀ p ∈ ps, ∀ c, f p c = 0) (cs : List β) : (List.zipWith f ps cs).sum = 0 := by
  induction ps generalizing cs with
  | nil => rfl
  | cons p ps ih =>
    cases cs with
    | nil => rfl
    | cons c cs =>
      rw [List.zipWith_cons_cons, List.sum_cons, h p List.mem_cons_self,
        ih (fun p hp => h p (List.mem_cons_of_mem _ hp)), zero_add]

theorem contribution_node (time : α) (state : ComponentState α) {n : Node} {i : Nat}
    (hn : n.number.toNat < l.numNodes) (hi : n.row? = some i) :
    d.contribution l time state i = d.device.leaving state.currents n := by
  have hlt : i < l.numNodes - 1 := n.row?_lt hn hi
  have hbranch : d.device.branch?.map l.branchRow ≠ some i := by
    intro heq
    obtain ⟨b, -, hb⟩ := Option.map_eq_some_iff.1 heq
    unfold Layout.branchRow at hb
    omega
  rw [contribution, atRow, if_neg hbranch, add_zero, Device.leaving]
  refine sum_zipWith_congr (fun p _ c => ?_) _
  simp only [pathRow, atRow, Node.row?_eq_iff hi]

/-- In the row of a source only the source itself contributes. -/
theorem contribution_branch (h : d.Fits l) (time : α) (state : ComponentState α) (b : Branch) :
    d.contribution l time state (l.branchRow b) =
      if d.device.branch? = some b then d.device.violation time state.voltages else 0 := by
  have hpaths : ∀ p ∈ d.device.paths, ∀ c : α, pathRow p.1 p.2 c (l.branchRow b) = 0 := by
    intro p hp c
    obtain ⟨h1, h2⟩ := Device.paths_lt h p hp
    have hne : ∀ n : Node, n.number.toNat < l.numNodes → n.row? ≠ some (l.branchRow b) := by
      intro n hn heq
      have := n.row?_lt hn heq
      unfold Layout.branchRow at this
      omega
    simp [pathRow, atRow, hne _ h1, hne _ h2]
  rw [contribution, sum_zipWith_eq_zero hpaths, zero_add, atRow]
  congr 1
  cases hb : d.device.branch? with
  | none => simp
  | some b' =>
    obtain ⟨k⟩ := b
    obtain ⟨k'⟩ := b'
    simp [Layout.branchRow]

end Component

end Nodal
