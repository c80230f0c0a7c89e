import Nodal.Description.Basic
import Nodal.Proofs.Grounding
import Nodal.Proofs.Linearity

/-! # Strengths of sources

Circuits without nonlinear devices that differ in the strengths of their sources alone, and in these
along a subspace, pass the same checks and get the same numbering. They are stamped along the
subspace, in the static equation and in a tick, and what is derived from solutions along the
subspace varies along it again. -/

namespace Nodal
variable {ι α : Type} [ExactScalar α] {L : Submodule α (ι → α)}

/-! ## Circuits -/

/-- The strength of a source; the other devices have none. -/
def Device.strength? : Device α → Option α
  | .voltageSource _ _ (.constant voltage) _ => some voltage
  | .voltageSource _ _ (.sine voltage _ _) _ => some voltage
  | .currentSource _ _ current => some current
  | _ => none

/-- The devices are the same but for the strength of a source, and none is nonlinear. -/
inductive Device.Along (L : Submodule α (ι → α)) (d : ι → Device α) : Prop
  | plain (d₀ : Device α) : d₀.isNonlinear = false → d₀.strength? = none → (∀ i, d i = d₀) →
      Along L d
  | constant (a b : Node) (v : ι → α) (branch : Option Branch) :
      (∀ i, d i = .voltageSource a b (.constant (v i)) branch) → v ∈ L → Along L d
  | sine (a b : Node) (v : ι → α) (frequency zeroTime : α) (branch : Option Branch) :
      (∀ i, d i = .voltageSource a b (.sine (v i) frequency zeroTime) branch) → v ∈ L → Along L d
  | currentSource (a b : Node) (v : ι → α) : (∀ i, d i = .currentSource a b (v i)) → v ∈ L →
      Along L d

def Component.Along (L : Submodule α (ι → α)) (c : ι → Component α) : Prop :=
  ∃ id name device, (∀ i, c i = ⟨id, name, device i⟩) ∧ Device.Along L device

structure Circuit.Along (L : Submodule α (ι → α)) (c : ι → Circuit α) : Prop where
  components : Each (Component.Along L) fun i => (c i).components
  numNodes : Same fun i => (c i).numNodes
  numSources : Same fun i => (c i).numSources

/-- The companions have the same conductance, and what they remember varies along the subspace. -/
def Companion.Along (L : Submodule α (ι → α)) (k : ι → Companion α) : Prop :=
  ∃ conductance history, (∀ i, k i = ⟨conductance, history i⟩) ∧ history ∈ L

/-- What is stored of a component varies along the subspace. -/
structure ComponentState.Along (L : Submodule α (ι → α)) (s : ι → ComponentState α) : Prop where
  voltages : Each (· ∈ L) fun i => (s i).voltages
  currents : Each (· ∈ L) fun i => (s i).currents

namespace ComponentState

theorem empty_along : Along L fun _ => (empty : ComponentState α) :=
  ⟨.nil fun _ => rfl, .nil fun _ => rfl⟩

theorem zeroed_along (numVoltages numCurrents : Nat) :
    Along L fun _ => (zeroed numVoltages numCurrents : ComponentState α) :=
  ⟨replicate_zero_mem numVoltages, replicate_zero_mem numCurrents⟩

variable {s : ι → ComponentState α}

theorem Along.voltageAcross_mem (h : Along L s) : (fun i => (s i).voltageAcross) ∈ L := by
  unfold voltageAcross
  cases h.voltages with
  | nil hv =>
    simp only [hv]
    exact L.zero_mem
  | cons v vs hv hmem hvs =>
    cases hvs with
    | nil hvs =>
      simp only [hv, hvs]
      exact L.zero_mem
    | cons w ws hvs hw _ =>
      simp only [hv, hvs]
      exact L.sub_mem hmem hw

theorem Along.current_mem (h : Along L s) : (fun i => (s i).current) ∈ L := by
  unfold current
  cases h.currents with
  | nil hc =>
    simp only [hc]
    exact L.zero_mem
  | cons c cs hc hmem _ =>
    simp only [hc]
    exact hmem

end ComponentState

namespace Companion
variable {previous : ι → ComponentState α}

theorem capacitor_along (component : String) (capacitance timestep : α)
    (h : ComponentState.Along L previous) :
    Alike (Along L) fun i => capacitor component capacitance timestep (previous i) := by
  unfold capacitor
  refine .const_bind _ fun _ => .const_bind _ fun _ => ?_
  exact .pure ⟨_, _, fun _ => rfl, L.add_mem h.current_mem (L.smul_mem _ h.voltageAcross_mem)⟩

theorem inductor_along (component : String) (inductance timestep : α)
    (h : ComponentState.Along L previous) :
    Alike (Along L) fun i => inductor component inductance timestep (previous i) := by
  unfold inductor
  refine .const_bind _ fun _ => .const_bind _ fun _ => ?_
  exact .pure ⟨_, _, fun _ => rfl,
    L.neg_mem (L.add_mem h.current_mem (L.smul_mem _ h.voltageAcross_mem))⟩

theorem Along.recover {k : ι → Companion α} {voltages : ι → List α} (h : Along L k)
    (hv : Each (· ∈ L) voltages) :
    Alike (ε := Halt α) (Each (· ∈ L)) fun i => (k i).recover (voltages i) := by
  obtain ⟨conductance, history, hk, hhistory⟩ := h
  cases hv with
  | nil hv =>
    simp only [hv, Companion.recover]
    exact .error _ fun _ => rfl
  | cons v vs hv hmem hvs =>
    cases hvs with
    | nil hvs =>
      simp only [hv, hvs, Companion.recover]
      exact .error _ fun _ => rfl
    | cons w ws hvs hw _ =>
      simp only [hv, hvs, hk, Companion.recover, Companion.current, mul_comm _ conductance]
      have hcurrent := L.sub_mem (L.smul_mem conductance (L.sub_mem hmem hw)) hhistory
      exact .pure (.cons _ _ (fun _ => rfl) hcurrent (.nil fun _ => rfl))

end Companion

namespace Component
open Stamping
variable {c : ι → Component α}

theorem Along.id (h : Along L c) : Same fun i => (c i).id := by
  obtain ⟨id, name, device, hc, -⟩ := h
  exact ⟨id, fun i => congrArg Component.id (hc i)⟩

/-- What does not read the strength of a source is the same. -/
theorem Along.same {β : Type} (h : Along L c) {f : Device α → β}
    (hconstant : ∀ a b v w branch,
      f (.voltageSource a b (.constant v) branch) = f (.voltageSource a b (.constant w) branch))
    (hsine : ∀ a b v w frequency zeroTime branch,
      f (.voltageSource a b (.sine v frequency zeroTime) branch) =
        f (.voltageSource a b (.sine w frequency zeroTime) branch))
    (hcurrent : ∀ a b v w, f (.currentSource a b v) = f (.currentSource a b w)) :
    Same fun i => f (c i).device := by
  obtain ⟨id, name, device, hc, hdevice⟩ := h
  simp only [hc]
  rcases hdevice with ⟨d₀, -, -, hd⟩ | ⟨a, b, v, branch, hd, -⟩ |
    ⟨a, b, v, frequency, zeroTime, branch, hd, -⟩ | ⟨a, b, v, hd, -⟩
  · exact ⟨f d₀, fun i => congrArg f (hd i)⟩
  · exact ⟨_, fun i => (congrArg f (hd i)).trans (hconstant a b (v i) 0 branch)⟩
  · exact ⟨_, fun i => (congrArg f (hd i)).trans (hsine a b (v i) 0 frequency zeroTime branch)⟩
  · exact ⟨_, fun i => (congrArg f (hd i)).trans (hcurrent a b (v i) 0)⟩

theorem Along.nodes (h : Along L c) : Same fun i => (c i).nodes :=
  h.same (fun _ _ _ _ _ => rfl) (fun _ _ _ _ _ _ _ => rfl) fun _ _ _ _ => rfl

theorem Along.numCurrents (h : Along L c) : Same fun i => (c i).device.numCurrents :=
  h.same (fun _ _ _ _ _ => rfl) (fun _ _ _ _ _ _ _ => rfl) fun _ _ _ _ => rfl

theorem Along.numSources (h : Along L c) : Same fun i => (c i).device.numSources :=
  h.same (fun _ _ _ _ _ => rfl) (fun _ _ _ _ _ _ _ => rfl) fun _ _ _ _ => rfl

theorem Along.isNonlinear (h : Along L c) (i : ι) : (c i).isNonlinear = false := by
  obtain ⟨id, name, device, hc, hdevice⟩ := h
  rw [Component.isNonlinear, hc]
  rcases hdevice with ⟨d₀, hlinear, -, hd⟩ | ⟨a, b, v, branch, hd, -⟩ |
    ⟨a, b, v, frequency, zeroTime, branch, hd, -⟩ | ⟨a, b, v, hd, -⟩
  · rw [hd, hlinear]
  all_goals
    rw [hd]
    rfl

theorem Along.check (h : Along L c) : Same fun i => (c i).check := by
  obtain ⟨id, name, device, hc, hdevice⟩ := h
  simp only [hc, Component.check]
  rcases hdevice with ⟨d₀, -, -, hd⟩ | ⟨a, b, v, branch, hd, -⟩ |
    ⟨a, b, v, frequency, zeroTime, branch, hd, -⟩ | ⟨a, b, v, hd, -⟩
  all_goals
    simp only [hd, Waveform.isTimeVarying]
    exact .const _

theorem Along.fixedStamps (h : Along L c) : Each (Stamp.Along L) fun i => (c i).fixedStamps := by
  obtain ⟨id, name, device, hc, hdevice⟩ := h
  simp only [hc, Component.fixedStamps]
  rcases hdevice with ⟨d₀, -, hstrength, hd⟩ | ⟨a, b, v, branch, hd, hv⟩ |
    ⟨a, b, v, frequency, zeroTime, branch, hd, hv⟩ | ⟨a, b, v, hd, hv⟩
  · simp only [hd]
    cases d₀ with
    | resistor a b resistance fault =>
      exact .cons _ _ (fun _ => rfl) (.resistor _ a b fun _ => rfl) (.nil fun _ => rfl)
    | wire a b branch =>
      exact .common _ fun k _ => .voltageSource _ a b k (fun _ => rfl) L.zero_mem
    | voltageSource a b waveform branch => cases waveform <;> cases hstrength
    | currentSource a b current => cases hstrength
    | opAmp plus minus output gain branch =>
      exact .common _ fun k _ => .controlledSource gain _ _ _ _ k fun _ => rfl
    | _ => exact .nil fun _ => rfl
  · simp only [hd]
    exact .common _ fun k _ => .voltageSource v a b k (fun _ => rfl) hv
  · simp only [hd]
    exact .nil fun _ => rfl
  · simp only [hd]
    exact .cons _ _ (fun _ => rfl) (.currentSource v a b (fun _ => rfl) hv) (.nil fun _ => rfl)

theorem Along.makeCompanion (h : Along L c) (timestep : α) {previous : ι → ComponentState α}
    (hprevious : ComponentState.Along L previous) :
    Alike (Possibly (Companion.Along L)) fun i => (c i).makeCompanion timestep (previous i) := by
  obtain ⟨id, name, device, hc, hdevice⟩ := h
  simp only [hc, Component.makeCompanion]
  rcases hdevice with ⟨d₀, -, hstrength, hd⟩ | ⟨a, b, v, branch, hd, -⟩ |
    ⟨a, b, v, frequency, zeroTime, branch, hd, -⟩ | ⟨a, b, v, hd, -⟩
  · simp only [hd]
    cases d₀ with
    | capacitor a b capacitance =>
      exact (Companion.capacitor_along name capacitance timestep hprevious).bind
        fun k hk => .pure (.some k (fun _ => rfl) hk)
    | inductor a b inductance =>
      exact (Companion.inductor_along name inductance timestep hprevious).bind
        fun k hk => .pure (.some k (fun _ => rfl) hk)
    | voltageSource a b waveform branch => cases waveform <;> cases hstrength
    | _ => exact .pure (.none fun _ => rfl)
  · simp only [hd]
    exact .pure (.none fun _ => rfl)
  · simp only [hd]
    rcases branch with _ | k
    · exact .error _ fun _ => rfl
    · exact .ok _ (fun _ => rfl) (.none fun _ => rfl)
  · simp only [hd]
    exact .pure (.none fun _ => rfl)

theorem Along.varyingStamps (h : Along L c) (time : α) {made : ι → Option (Companion α)}
    (hmade : Possibly (Companion.Along L) made) :
    Each (Stamp.Along L) fun i => (c i).varyingStamps time (made i) := by
  have hcompanion : ∀ a b, Each (Stamp.Along L) fun i => (made i).toList.flatMap fun k =>
      [.conductance k.conductance a b, .currentSource k.history b a] := by
    intro a b
    rcases hmade with hnone | ⟨k, hsome, g, history, hk, hhistory⟩
    · simp only [hnone]
      exact .nil fun _ => rfl
    · simp only [hsome, hk]
      exact .cons _ _ (fun _ => rfl) (.conductance g a b fun _ => rfl)
        (.cons _ _ (fun _ => rfl) (.currentSource history b a (fun _ => rfl) hhistory)
          (.nil fun _ => rfl))
  obtain ⟨id, name, device, hc, hdevice⟩ := h
  simp only [hc, Component.varyingStamps]
  rcases hdevice with ⟨d₀, -, hstrength, hd⟩ | ⟨a, b, v, branch, hd, -⟩ |
    ⟨a, b, v, frequency, zeroTime, branch, hd, hv⟩ | ⟨a, b, v, hd, -⟩
  · simp only [hd]
    cases d₀ with
    | capacitor a b capacitance => exact hcompanion a b
    | inductor a b inductance => exact hcompanion a b
    | voltageSource a b waveform branch => cases waveform <;> cases hstrength
    | _ => exact .nil fun _ => rfl
  · simp only [hd]
    exact .nil fun _ => rfl
  · simp only [hd]
    refine .common _ fun k _ => .voltageSource _ a b k (fun _ => rfl) ?_
    show (fun i => v i * Scalar.sin (2.0 * Scalar.pi * frequency * (time - zeroTime))) ∈ L
    simp only [mul_comm (v _)]
    exact L.smul_mem _ hv
  · simp only [hd]
    exact .nil fun _ => rfl

theorem Along.stamp (h : Along L c) :
    Parallel (Equation.Along L) (fun _ => True) fun i => (c i).stamp := by
  obtain ⟨r, hr⟩ := h.check
  simp only [stamp_eq, hr]
  have hcheck : Alike (fun _ => True) fun _ : ι => r := .const r fun _ => trivial
  exact (check_along hcheck).bind fun _ _ => carryOut_along h.fixedStamps

theorem Along.stampDynamic (h : Along L c) (timestep time : α) {previous : ι → ComponentState α}
    (hprevious : ComponentState.Along L previous) :
    Parallel (Equation.Along L) (Possibly (Companion.Along L))
      fun i => (c i).stampDynamic timestep time (previous i) := by
  simp only [stampDynamic_eq]
  refine (check_along (h.makeCompanion timestep hprevious)).bind fun made hmade => ?_
  exact (carryOut_along (h.varyingStamps time hmade)).bind fun _ _ => .pure hmade

/-- The currents that a solution tells. -/
theorem Along.currents (h : Along L c) {values : ι → List α} (hvalues : Each (· ∈ L) values)
    (numNodes : Nat) : Each (· ∈ L) fun i => (c i).currents ⟨values i, numNodes⟩ := by
  have hzero : Each (· ∈ L) fun _ => [0] :=
    .cons _ _ (fun _ => rfl) L.zero_mem (.nil fun _ => rfl)
  have hone : ∀ v, v ∈ L → Each (· ∈ L) fun i => [v i] := fun v hv =>
    .cons v _ (fun _ => rfl) hv (.nil fun _ => rfl)
  have hbranch : ∀ branch, (fun i => branchCurrent ⟨values i, numNodes⟩ branch) ∈ L := by
    intro branch
    cases branch with
    | none => exact L.zero_mem
    | some b => exact getD_mem hvalues (((Unknown.current b).position numNodes + 1) % UInt64.size)
  obtain ⟨id, name, device, hc, hdevice⟩ := h
  simp only [hc, Component.currents]
  rcases hdevice with ⟨d₀, hlinear, hstrength, hd⟩ | ⟨a, b, v, branch, hd, -⟩ |
    ⟨a, b, v, frequency, zeroTime, branch, hd, -⟩ | ⟨a, b, v, hd, hv⟩
  · simp only [hd]
    cases d₀ with
    | resistor a b resistance fault =>
      refine hone _ ?_
      simp only [div_eq_inv_mul]
      exact L.smul_mem _ (L.sub_mem (getD_mem hvalues _) (getD_mem hvalues _))
    | wire a b branch => exact hone _ (hbranch branch)
    | voltageSource a b waveform branch => cases waveform <;> cases hstrength
    | currentSource a b current => cases hstrength
    | capacitor a b capacitance => exact hzero
    | inductor a b inductance => exact hzero
    | opAmp plus minus output gain branch =>
      exact .cons _ _ (fun _ => rfl) L.zero_mem (hone _ (hbranch branch))
    | diode anode cathode params => cases hlinear
    | mosfet drain gate source channel params => cases hlinear
  · simp only [hd]
    exact hone _ (hbranch branch)
  · simp only [hd]
    exact hone _ (hbranch branch)
  · simp only [hd]
    exact hone v hv

end Component

namespace Circuit

variable {c : ι → Circuit α}

theorem Along.nonlinear (h : Along L c) (i : ι) : (c i).nonlinear = [] := by
  have hlinear : ∀ {cs : ι → List (Component α)}, Each (Component.Along L) cs →
      (cs i).filter Component.isNonlinear = [] := by
    intro cs hcs
    induction hcs with
    | nil hcs => rw [hcs, List.filter_nil]
    | cons d ds hcs hd _ ih => rw [hcs, List.filter_cons, hd.isNonlinear i, if_neg nofun, ih]
  exact hlinear h.components

theorem Along.staticEquation (h : Along L c) :
    Alike (Equation.Along L) fun i => (c i).staticEquation := by
  obtain ⟨groups, hgroups⟩ := h.components.same_map fun _ => Component.Along.nodes
  obtain ⟨numNodes, hnodes⟩ := h.numNodes
  obtain ⟨numSources, hsources⟩ := h.numSources
  have hvalidate : Alike (fun _ => True) fun i => (c i).validate := by
    rcases isEmpty_or_nonempty ι with _ | ⟨⟨i₀⟩⟩
    · exact .ok (fun _ => ()) isEmptyElim trivial
    have hsame : (fun i => (c i).validate) = fun _ => (c i₀).validate := by
      funext i
      have hsame := (hgroups i).trans (hgroups i₀).symm
      exact validate_perm (.of_eq hsame) ((hnodes i).trans (hnodes i₀).symm)
    rw [hsame]
    exact .const _ fun _ => trivial
  simp only [Circuit.staticEquation, hnodes, hsources]
  have hblank := Equation.blank_along (L := L) numNodes numSources
  refine hvalidate.bind fun _ _ => hblank.bind fun e he => ?_
  have hstamps := Parallel.forM (f := fun _ : ι => Component.stamp) h.components
    (fun _ => Component.Along.stamp) e he
  simp only [EStateM.run]
  rcases hstamps with ⟨u, e', hr, -, he'⟩ | ⟨halt, e', hr, -⟩
  · simp only [hr]
    exact .pure he'
  · simp only [hr]
    exact .error halt fun _ => rfl

/-- What is stored of the components varies along the subspace. -/
abbrev StateAlong (L : Submodule α (ι → α)) (state : ι → CircuitState α) : Prop :=
  Each (Keyed (ComponentState.Along L)) state

theorem stampOne_along (timestep time : α) {previous : ι → CircuitState α}
    (hprevious : StateAlong L previous) {kept : ι → Companions α}
    (hkept : Each (Keyed (Companion.Along L)) kept) {d : ι → Component α}
    (hd : Component.Along L d) :
    Parallel (Equation.Along L) (Each (Keyed (Companion.Along L)))
      fun i => stampOne timestep time (previous i) (kept i) (d i) := by
  obtain ⟨id, hid⟩ := hd.id
  have hstate : ComponentState.Along L fun i => ((previous i).get? id).getD .empty := by
    simp only [CircuitState.get?]
    rcases hprevious.lookup id with hnone | ⟨s, hsome, hs⟩
    · simp only [hnone]
      exact ComponentState.empty_along
    · simp only [hsome]
      exact hs
  simp only [stampOne, hid]
  refine (hd.stampDynamic timestep time hstate).bind fun made hmade => ?_
  rcases hmade with hnone | ⟨k, hsome, hk⟩
  · simp only [hnone]
    exact .pure hkept
  · simp only [hsome]
    exact .pure (.cons _ kept (fun _ => rfl) ⟨id, k, fun _ => rfl, hk⟩ hkept)

theorem Along.stampTick (h : Along L c) (timestep time : α) {previous : ι → CircuitState α}
    (hprevious : StateAlong L previous) :
    Parallel (Equation.Along L) (Each (Keyed (Companion.Along L)))
      fun i => (c i).stampTick timestep time (previous i) := by
  simp only [Circuit.stampTick]
  split
  · have hfold := Parallel.foldlM (f := fun i => stampOne timestep time (previous i))
      (c := fun _ : ι => []) h.components (.nil fun _ => rfl)
      (fun kept d hkept hd => stampOne_along timestep time hprevious hkept hd)
    exact hfold.bind fun kept hkept => .pure hkept.reverse
  · exact .throw _

theorem componentState_along {values : ι → List α} (hvalues : Each (· ∈ L) values)
    (numNodes : Nat) {companions : ι → Companions α}
    (hcompanions : Each (Keyed (Companion.Along L)) companions) {d : ι → Component α}
    (hd : Component.Along L d) : Alike (ComponentState.Along L)
      fun i => componentState ⟨values i, numNodes⟩ (companions i) (d i) := by
  obtain ⟨id, hid⟩ := hd.id
  obtain ⟨nodes, hnodes⟩ := hd.nodes
  have hvoltages : Each (· ∈ L) fun i => nodes.map (Solution.voltage ⟨values i, numNodes⟩) :=
    .common nodes fun n _ => getD_mem hvalues n.number.toNat
  simp only [componentState, hid, hnodes]
  rcases hcompanions.lookup id with hnone | ⟨k, hsome, hk⟩
  · simp only [hnone]
    exact .pure ⟨hvoltages, hd.currents hvalues numNodes⟩
  · simp only [hsome]
    exact (hk.recover hvoltages).bind fun currents hcurrents => .pure ⟨hvoltages, hcurrents⟩

theorem Along.deriveState (h : Along L c) {values : ι → List α} (hvalues : Each (· ∈ L) values)
    {companions : ι → Companions α} (hcompanions : Each (Keyed (Companion.Along L)) companions) :
    Alike (StateAlong L) fun i => (c i).deriveState (values i) (companions i) := by
  obtain ⟨numNodes, hnodes⟩ := h.numNodes
  simp only [Circuit.deriveState, hnodes]
  refine Alike.mapM h.components fun d hd => ?_
  obtain ⟨id, hid⟩ := hd.id
  simp only [hid]
  exact (componentState_along hvalues numNodes hcompanions hd).bind
    fun s hs => .pure ⟨id, s, fun _ => rfl, hs⟩

end Circuit

/-! ## Building circuits -/

namespace Circuit

theorem insert?_along {c : ι → Component α} (hc : Component.Along L c)
    {placed : ι → List (Component α)} (h : Each (Component.Along L) placed) :
    Possibly (Each (Component.Along L)) fun i => insert? (c i) (placed i) := by
  obtain ⟨id, hid⟩ := hc.id
  induction h with
  | nil h =>
    simp only [h, insert?]
    exact .some _ (fun _ => rfl) (.cons c _ (fun _ => rfl) hc (.nil fun _ => rfl))
  | cons d rest h hd hrest ih =>
    obtain ⟨id', hid'⟩ := hd.id
    simp only [h, insert?, hid, hid']
    split_ifs
    · exact .some _ (fun _ => rfl)
        (.cons c _ (fun _ => rfl) hc (.cons d rest (fun _ => rfl) hd hrest))
    · exact .none fun _ => rfl
    · rcases ih with hnone | ⟨placed, hsome, hplaced⟩
      · simp only [hnone]
        exact .none fun _ => rfl
      · simp only [hsome]
        exact .some _ (fun _ => rfl) (.cons d placed (fun _ => rfl) hd hplaced)

theorem arrange_along {cs : ι → List (Component α)} (h : Each (Component.Along L) cs) :
    Alike (Each (Component.Along L)) fun i => arrange (cs i) := by
  refine Alike.foldlM h (.nil fun _ => rfl) fun placed d hplaced hd => ?_
  obtain ⟨id, hid⟩ := hd.id
  rcases insert?_along hd hplaced with hnone | ⟨placed', hsome, hplaced'⟩
  · simp only [hnone, hid]
    exact .error _ fun _ => rfl
  · simp only [hsome]
    exact .ok _ (fun _ => rfl) hplaced'

theorem assignBranch_along {d : ι → Device α} (h : Device.Along L d) (b : Branch) :
    Device.Along L fun i => (d i).assignBranch b := by
  rcases h with ⟨d₀, hlinear, hstrength, hd⟩ | ⟨a, b, v, branch, hd, hv⟩ |
    ⟨a, b, v, frequency, zeroTime, branch, hd, hv⟩ | ⟨a, b, v, hd, hv⟩
  · simp only [hd]
    refine .plain (d₀.assignBranch b) ?_ ?_ fun _ => rfl
    · cases d₀ <;> first | rfl | cases hlinear
    · cases d₀ with
      | voltageSource a b waveform branch => cases waveform <;> cases hstrength
      | currentSource a b current => cases hstrength
      | _ => rfl
  · simp only [hd]
    exact .constant a b v _ (fun _ => rfl) hv
  · simp only [hd]
    exact .sine a b v frequency zeroTime _ (fun _ => rfl) hv
  · simp only [hd]
    exact .currentSource a b v (fun _ => rfl) hv

theorem numberSources_along {cs : ι → List (Component α)} (h : Each (Component.Along L) cs)
    (next : Nat) : Each (Component.Along L) fun i => numberSources next (cs i) := by
  induction h generalizing next with
  | nil h =>
    simp only [h]
    exact .nil fun _ => rfl
  | cons d rest h hd hrest ih =>
    obtain ⟨n, hn⟩ := hd.numSources
    simp only [h, numberSources, hn]
    split_ifs
    · exact .cons d _ (fun _ => rfl) hd (ih next)
    · obtain ⟨id, name, device, hc, hdevice⟩ := hd
      simp only [hc]
      exact .cons _ _ (fun _ => rfl)
        ⟨id, name, _, fun _ => rfl, assignBranch_along hdevice ⟨next⟩⟩ (ih (next + 1))

theorem countSources_along {cs : ι → List (Component α)} (h : Each (Component.Along L) cs) :
    Same fun i => countSources (cs i) := by
  induction h with
  | nil h =>
    simp only [h]
    exact .const 0
  | cons d rest h hd _ ih =>
    obtain ⟨n, hn⟩ := hd.numSources
    obtain ⟨k, hk⟩ := ih
    simp only [h, countSources, hn, hk]
    exact .const (n + k)

theorem countNodes_along {cs : ι → List (Component α)} (h : Each (Component.Along L) cs) :
    Same fun i => countNodes (cs i) := by
  obtain ⟨nodes, hnodes⟩ := h.same_map fun _ => Component.Along.nodes
  simp only [countNodes, List.flatMap_def, hnodes]
  exact .const _

theorem ofComponents_along {cs : ι → List (Component α)} (h : Each (Component.Along L) cs) :
    Alike (Along L) fun i => ofComponents (cs i) := by
  simp only [ofComponents]
  exact (arrange_along h).bind fun placed hplaced => .pure
    ⟨numberSources_along hplaced 0, countNodes_along hplaced, countSources_along hplaced⟩

theorem unloaded_along : Along L fun _ => (unloaded : Circuit α) :=
  ⟨.nil fun _ => rfl, .const 0, .const 0⟩

end Circuit

/-- The parameters are the same but for the strength of a source, and none is of a nonlinear
device. -/
inductive Parameters.Along (L : Submodule α (ι → α)) (p : ι → Parameters α) : Prop
  | plain (p₀ : Parameters α) : p₀.kind ∉ [.voltageSource, .currentSource, .diode, .mosfet] →
      (∀ i, p i = p₀) → Along L p
  | voltageSource (v : ι → α) (frequency : Option α) (zeroTime : α) :
      (∀ i, p i = .voltageSource (v i) frequency zeroTime) → v ∈ L → Along L p
  | currentSource (v : ι → α) : (∀ i, p i = .currentSource (v i)) → v ∈ L → Along L p

namespace ComponentDescription

def Along (L : Submodule α (ι → α)) (d : ι → ComponentDescription α) : Prop :=
  ∃ id name nodes parameters, (∀ i, d i = ⟨id, name, nodes, parameters i⟩) ∧
    Parameters.Along L parameters

omit [ExactScalar α] in
theorem plain_of_kind {d : ComponentDescription α} {device : Device α}
    (hkind : d.parameters.kind ∉ [.voltageSource, .currentSource, .diode, .mosfet])
    (h : d.device? = some device) : device.isNonlinear = false ∧ device.strength? = none := by
  obtain ⟨id, name, nodes, parameters⟩ := d
  simp only [device?] at h
  split at h
  all_goals
    cases h
  all_goals
    first
    | exact ⟨rfl, rfl⟩
    | exact absurd (by simp [Parameters.kind]) hkind

theorem device?_along (id : ComponentId) (name : Option String) (nodes : List Node)
    {parameters : ι → Parameters α} (h : Parameters.Along L parameters) :
    Possibly (Device.Along L)
      fun i => (⟨id, name, nodes, parameters i⟩ : ComponentDescription α).device? := by
  rcases h with ⟨p₀, hkind, hp⟩ | ⟨v, frequency, zeroTime, hp, hv⟩ | ⟨v, hp, hv⟩
  · simp only [hp]
    cases hdevice : (⟨id, name, nodes, p₀⟩ : ComponentDescription α).device? with
    | none => exact .none fun _ => rfl
    | some device =>
      obtain ⟨hlinear, hstrength⟩ := plain_of_kind hkind hdevice
      exact .some _ (fun _ => rfl) (.plain device hlinear hstrength fun _ => rfl)
  · simp only [hp]
    match nodes with
    | [a, b] =>
      refine .some _ (fun _ => rfl) ?_
      cases frequency with
      | none => exact .constant a b v none (fun _ => rfl) hv
      | some f => exact .sine a b v f zeroTime none (fun _ => rfl) hv
    | [] => exact .none fun _ => rfl
    | [_] => exact .none fun _ => rfl
    | _ :: _ :: _ :: _ => exact .none fun _ => rfl
  · simp only [hp]
    match nodes with
    | [a, b] => exact .some _ (fun _ => rfl) (.currentSource a b v (fun _ => rfl) hv)
    | [] => exact .none fun _ => rfl
    | [_] => exact .none fun _ => rfl
    | _ :: _ :: _ :: _ => exact .none fun _ => rfl

theorem Along.toComponent {d : ι → ComponentDescription α} (h : Along L d) :
    Alike (Component.Along L) fun i => (d i).toComponent := by
  obtain ⟨id, name, nodes, parameters, hd, hparameters⟩ := h
  have hkind : Same fun i => (parameters i).kind := by
    rcases hparameters with ⟨p₀, -, hp⟩ | ⟨v, frequency, zeroTime, hp, -⟩ | ⟨v, hp, -⟩
    · exact ⟨p₀.kind, fun i => congrArg Parameters.kind (hp i)⟩
    · exact ⟨.voltageSource, fun i => congrArg Parameters.kind (hp i)⟩
    · exact ⟨.currentSource, fun i => congrArg Parameters.kind (hp i)⟩
  obtain ⟨kind, hkind⟩ := hkind
  simp only [hd, ComponentDescription.toComponent, displayName, hkind]
  rcases device?_along id name nodes hparameters with hnone | ⟨device, hsome, hdevice⟩
  · simp only [hnone]
    exact .error _ fun _ => rfl
  · simp only [hsome]
    exact .ok _ (fun _ => rfl) ⟨id, _, device, fun _ => rfl, hdevice⟩

end ComponentDescription

end Nodal
