import Nodal.Proofs.Grounding
import Nodal.Proofs.Residual
import Nodal.Proofs.Solvability

/-! # Circuits of resistors, capacitors and inductors

In a tick each of these components is a conductance above zero, beside a source that is no part of
the matrix. The quadratic form of the matrix therefore adds up the conductances times the squares of
the voltages across them (`dot_mulVec`). Where it is zero, each component has the same voltage at
both of its nodes, and along a chain of components so has every node and ground. -/

namespace Nodal
variable {α : Type} [ExactScalar α]

/-! ## Passive devices -/

namespace Device

/-- A resistance, a capacitance or an inductance above zero. -/
def IsPassive : Device α → Prop
  | resistor _ _ resistance fault => 0 < fault.effective resistance
  | capacitor _ _ capacitance => 0 < capacitance
  | inductor _ _ inductance => 0 < inductance
  | _ => False

/-- What a passive device conducts in a tick. -/
def conductance (timestep : α) : Device α → α
  | resistor _ _ resistance fault => 1 / fault.effective resistance
  | capacitor _ _ capacitance => 2.0 * capacitance / timestep
  | inductor _ _ inductance => timestep / (2.0 * inductance)
  | _ => 0

/-- The nodes that the first path of the device leads between. -/
def ends (d : Device α) : Node × Node := d.paths.headD (.ground, .ground)

/-- The voltage between these nodes in a solution without ground. -/
def drop (x : List α) (d : Device α) : α := voltageIn x d.ends.1 - voltageIn x d.ends.2

theorem IsPassive.conductance_pos {d : Device α} (h : d.IsPassive) {timestep : α}
    (ht : 0 < timestep) : 0 < d.conductance timestep := by
  have htwo : (0 : α) < 2.0 := Scalar.two_exact (α := α) ▸ two_pos
  cases d with
  | resistor a b resistance fault => exact one_div_pos.2 h
  | capacitor a b capacitance => exact div_pos (mul_pos htwo h) ht
  | inductor a b inductance => exact div_pos ht (mul_pos htwo h)
  | _ => exact h.elim

theorem IsPassive.nodes_eq {d : Device α} (h : d.IsPassive) : d.nodes = [d.ends.1, d.ends.2] := by
  cases d <;> first | rfl | exact h.elim

theorem IsPassive.numSources_eq {d : Device α} (h : d.IsPassive) : d.numSources = 0 := by
  cases d <;> first | rfl | exact h.elim

theorem IsPassive.isNonlinear_eq {d : Device α} (h : d.IsPassive) : d.isNonlinear = false := by
  cases d <;> first | rfl | exact h.elim

end Device

theorem Component.check_passive {d : Component α} (h : d.device.IsPassive) : d.check = .ok () := by
  obtain ⟨id, name, device⟩ := d
  cases device with
  | resistor a b resistance fault => exact requirePositive_eq_ok.2 h
  | capacitor a b capacitance => exact requirePositive_eq_ok.2 h
  | inductor a b inductance => exact requirePositive_eq_ok.2 h
  | _ => exact h.elim

theorem voltageIn_nil (n : Node) : voltageIn ([] : List α) n = 0 := by
  rw [voltageIn]
  cases n.row? <;> rfl

/-- A passive component draws what it conducts, less what its source remembers. -/
theorem Component.contribution_passive {d : Component α} (h : d.device.IsPassive) {timestep : α}
    (ht : 0 < timestep) (l : Layout) (c : Circuit α) (time : α) (previous : CircuitState α) :
    ∃ remembered, ∀ (x : List α) (i : Nat),
      d.contribution l time (c.stateOf timestep previous x d) i =
        pathRow d.device.ends.1 d.device.ends.2
          (d.device.conductance timestep * d.device.drop x - remembered) i := by
  obtain ⟨id, name, device⟩ := d
  cases device with
  | resistor a b resistance fault =>
    refine ⟨0, fun x i => ?_⟩
    have hcurrent : (voltageIn x a - voltageIn x b) / fault.effective resistance =
        1 / fault.effective resistance * (voltageIn x a - voltageIn x b) - 0 := by ring
    rw [contribution_path rfl rfl rfl, Solution.voltage_eq, Solution.voltage_eq, hcurrent]
    rfl
  | capacitor a b capacitance =>
    let shown := (previous.get? id).getD .empty
    have hmade := Companion.capacitor_ok name shown h ht
    refine ⟨shown.current + 2 * capacitance / timestep * shown.voltageAcross, fun x i => ?_⟩
    simp only [Circuit.stateOf, Circuit.companionOf, Component.companion?, shown, hmade]
    rw [contribution_companion rfl rfl rfl fun _ => rfl, Except.toOption, Option.elim_some,
      Companion.current, mul_comm, Device.conductance, Scalar.two_exact]
    rfl
  | inductor a b inductance =>
    let shown := (previous.get? id).getD .empty
    have hmade := Companion.inductor_ok name shown h ht
    refine ⟨-(shown.current + timestep / (2 * inductance) * shown.voltageAcross), fun x i => ?_⟩
    simp only [Circuit.stateOf, Circuit.companionOf, Component.companion?, shown, hmade]
    rw [contribution_companion rfl rfl rfl fun _ => rfl, Except.toOption, Option.elim_some,
      Companion.current, mul_comm, Device.conductance, Scalar.two_exact]
    rfl
  | _ => exact h.elim

/-! ## Sums over rows -/

section Rows

theorem pathRow_sub (a b : Node) (v w : α) (i : Nat) :
    pathRow a b (v - w) i = pathRow a b v i - pathRow a b w i := by
  simp only [pathRow, atRow]
  split_ifs <;> ring

theorem sum_mul_atRow {n : Nat} {row : Option Nat} (hrow : ∀ r, row = some r → r < n) (y : List α)
    (v : α) : ∑ i ∈ Finset.range n, y.getD i 0 * atRow row v i = v * unknownAt y row := by
  cases row with
  | none => simp [atRow, unknownAt]
  | some r =>
    have hterm : ∀ i ∈ Finset.range n,
        y.getD i 0 * atRow (some r) v i = if i = r then v * y.getD r 0 else 0 := by
      intro i _
      by_cases hi : r = i
      · subst hi
        simp [atRow, mul_comm]
      · simp [atRow, hi, Ne.symm hi]
    rw [Finset.sum_congr rfl hterm, Finset.sum_ite_eq', if_pos (Finset.mem_range.2 (hrow r rfl)),
      unknownAt_some]

/-- A current along a path, weighted with the voltages of another solution. -/
theorem sum_mul_pathRow {l : Layout} {a b : Node} (ha : a.number.toNat < l.numNodes)
    (hb : b.number.toNat < l.numNodes) (y : List α) (v : α) :
    ∑ i ∈ Finset.range l.size, y.getD i 0 * pathRow a b v i =
      v * (voltageIn y a - voltageIn y b) := by
  simp only [pathRow, mul_sub, Finset.sum_sub_distrib]
  rw [sum_mul_atRow (Equation.row_lt ha), sum_mul_atRow (Equation.row_lt hb)]
  rfl

theorem sum_mul_list_sum {ι : Type} (xs : List ι) (f : ι → Nat → α) (y : Nat → α) (n : Nat) :
    ∑ i ∈ Finset.range n, y i * (xs.map fun d => f d i).sum =
      (xs.map fun d => ∑ i ∈ Finset.range n, y i * f d i).sum := by
  induction xs with
  | nil => simp
  | cons d xs ih => simp only [List.map_cons, List.sum_cons, mul_add, Finset.sum_add_distrib, ih]

/-- One in one place and zero in the others. -/
def unit (n i : Nat) : List α := (List.range n).map fun j => if j = i then 1 else 0

theorem getD_unit {n i j : Nat} (hj : j < n) :
    (unit n i : List α).getD j 0 = if j = i then 1 else 0 := by
  simp [unit, List.getD_eq_getElem?_getD, hj]

theorem dot_unit {n i : Nat} (hi : i < n) (y : List α) : Scalar.dot (unit n i) y = y.getD i 0 := by
  have hlen : (unit n i : List α).length = n := by simp [unit]
  have hterm : ∀ j ∈ Finset.range n,
      (unit n i : List α).getD j 0 * y.getD j 0 = if j = i then y.getD i 0 else 0 := by
    intro j hj
    rw [getD_unit (Finset.mem_range.1 hj)]
    split
    · rename_i hji
      rw [hji, one_mul]
    · rw [zero_mul]
  rw [Scalar.dot_eq_sum, hlen, Finset.sum_congr rfl hterm, Finset.sum_ite_eq',
    if_pos (Finset.mem_range.2 hi)]

end Rows

namespace Matrix

theorem rowSum_unit (m : Matrix α) (i : Nat) {j : Nat} (hj : j < m.size) :
    m.rowSum (unit m.size j) i = m.entry i j := by
  have hterm : ∀ k ∈ Finset.range m.size,
      m.entry i k * (unit m.size j : List α).getD k 0 = if k = j then m.entry i j else 0 := by
    intro k hk
    rw [getD_unit (Finset.mem_range.1 hk)]
    split
    · rename_i hkj
      rw [hkj, mul_one]
    · rw [mul_zero]
  rw [rowSum, Finset.sum_congr rfl hterm, Finset.sum_ite_eq', if_pos (Finset.mem_range.2 hj)]

/-- Entries on both sides of the diagonal are equal. -/
def Symmetric (m : Matrix α) : Prop :=
  ∀ i j, i < m.size → j < m.size → m.entry i j = m.entry j i

/-- The quadratic form of the matrix is above zero but for zero itself. -/
def PositiveDefinite (m : Matrix α) : Prop :=
  ∀ x : List α, x.length = m.size → (∃ v ∈ x, v ≠ 0) → 0 < Scalar.dot x (m.mulVec x)

/-- The rows of a positive definite matrix determine their unknowns. -/
theorem PositiveDefinite.regular {m : Matrix α} (h : m.PositiveDefinite) (b : List α) :
    Row.Regular m.size (Row.zip m.rows b) := by
  refine (m.regular_iff b).2 fun xs hxs hzero v hv => ?_
  by_contra hne
  have hpos := h xs hxs ⟨v, hv, hne⟩
  rw [hzero, Scalar.dot_replicate_zero] at hpos
  exact lt_irrefl _ hpos

end Matrix

/-! ## The quadratic form -/

namespace Circuit
variable {l : Layout} {c : Circuit α} {timestep time : α} {previous : CircuitState α}
  {companions : Companions α} {e : Equation α}

/-- A row of the matrix adds up what the components conduct from its node. -/
theorem rowSum_passive (h : Stamped l c timestep time previous companions e)
    (hpassive : ∀ d ∈ c.components, d.device.IsPassive) (ht : 0 < timestep) (x : List α) (i : Nat) :
    e.admittances.rowSum x i = (c.components.map fun d => pathRow d.device.ends.1 d.device.ends.2
      (d.device.conductance timestep * d.device.drop x) i).sum := by
  have hzero : e.admittances.rowSum ([] : List α) i = 0 := by simp [Matrix.rowSum]
  suffices hdefect : e.defect x i = (c.components.map fun d =>
      pathRow d.device.ends.1 d.device.ends.2
        (d.device.conductance timestep * d.device.drop x) i).sum + e.defect [] i by
    rw [Equation.defect, Equation.defect, hzero] at hdefect
    linarith
  rw [h.defect_eq, h.defect_eq, ← List.sum_map_add]
  congr 1
  refine List.map_congr_left fun d hd => ?_
  have hd := hpassive d hd
  obtain ⟨remembered, hcontribution⟩ :=
    Component.contribution_passive hd ht l c time previous
  have hnil : d.device.drop ([] : List α) = 0 := by
    rw [Device.drop, voltageIn_nil, voltageIn_nil, sub_zero]
  rw [hd.isNonlinear_eq, if_neg Bool.false_ne_true, if_neg Bool.false_ne_true, hcontribution,
    hcontribution, hnil, pathRow_sub, pathRow_sub, mul_zero, pathRow_zero]
  ring

/-- The form of the matrix adds up the products of the voltages across the components, each with
what the component conducts. -/
theorem dot_mulVec (h : Stamped l c timestep time previous companions e)
    (hpassive : ∀ d ∈ c.components, d.device.IsPassive) (ht : 0 < timestep) {y : List α}
    (hy : y.length = l.size) (x : List α) :
    Scalar.dot y (e.admittances.mulVec x) = (c.components.map fun d =>
      d.device.conductance timestep * d.device.drop x * d.device.drop y).sum := by
  have hrow : ∀ i ∈ Finset.range l.size, y.getD i 0 * (e.admittances.mulVec x).getD i 0 =
      y.getD i 0 * (c.components.map fun d => pathRow d.device.ends.1 d.device.ends.2
        (d.device.conductance timestep * d.device.drop x) i).sum := by
    intro i hi
    have hi : i < e.admittances.size := h.equation.size_eq ▸ Finset.mem_range.1 hi
    rw [e.admittances.getD_mulVec x hi, rowSum_passive h hpassive ht]
  rw [Scalar.dot_eq_sum, hy, Finset.sum_congr rfl hrow, sum_mul_list_sum]
  congr 1
  refine List.map_congr_left fun d hd => ?_
  obtain ⟨ha, hb⟩ := (h.circuit.component hd).pair (hpassive d hd).nodes_eq
  exact sum_mul_pathRow ha hb y _

theorem symmetric_passive (h : Stamped l c timestep time previous companions e)
    (hpassive : ∀ d ∈ c.components, d.device.IsPassive) (ht : 0 < timestep) :
    e.admittances.Symmetric := by
  have hentry : ∀ i j, i < e.admittances.size → j < e.admittances.size →
      e.admittances.entry i j = (c.components.map fun d => d.device.conductance timestep *
        d.device.drop (unit e.admittances.size j) *
          d.device.drop (unit e.admittances.size i)).sum := by
    intro i j hi hj
    have hlen : (unit e.admittances.size i : List α).length = l.size := by
      simp [unit, h.equation.size_eq]
    rw [← dot_mulVec h hpassive ht hlen, dot_unit hi, e.admittances.getD_mulVec _ hi,
      e.admittances.rowSum_unit i hj]
  intro i j hi hj
  rw [hentry i j hi hj, hentry j i hj hi]
  congr 1
  exact List.map_congr_left fun d _ => mul_right_comm ..

/-- Nodes of one passive component have the same voltage when none drops across it. -/
theorem voltageIn_of_linked (hpassive : ∀ d ∈ c.components, d.device.IsPassive) {x : List α}
    (hdrop : ∀ d ∈ c.components, d.device.drop x = 0) {m n : Node} (h : c.Linked m n) :
    voltageIn x m = voltageIn x n := by
  obtain ⟨d, hd, hm, hn⟩ := h
  have hnodes : d.nodes = [d.device.ends.1, d.device.ends.2] := (hpassive d hd).nodes_eq
  have hsame : voltageIn x d.device.ends.1 = voltageIn x d.device.ends.2 :=
    sub_eq_zero.1 (hdrop d hd)
  have hall : ∀ k ∈ d.nodes, voltageIn x k = voltageIn x d.device.ends.2 := by
    intro k hk
    rw [hnodes] at hk
    rcases List.mem_cons.1 hk with rfl | hk
    · exact hsame
    · rw [List.mem_singleton.1 hk]
  rw [hall m hm, hall n hn]

/-- When no voltage drops across any component, all nodes that are connected to ground are at
zero. -/
theorem voltageIn_of_connected (hpassive : ∀ d ∈ c.components, d.device.IsPassive) {x : List α}
    (hdrop : ∀ d ∈ c.components, d.device.drop x = 0) {n : Node}
    (h : Relation.ReflTransGen c.Linked .ground n) : voltageIn x n = 0 := by
  induction h with
  | refl => rfl
  | tail _ hlinked ih => rw [← voltageIn_of_linked hpassive hdrop hlinked, ih]

theorem numSources_passive (hc : c.Numbered) (hpassive : ∀ d ∈ c.components, d.device.IsPassive) :
    c.numSources = 0 := by
  have hnone : c.sources = [] := by
    refine List.filter_eq_nil_iff.2 fun d hd => ?_
    simp [(hpassive d hd).numSources_eq]
  rw [← hc.length_sources, hnone, List.length_nil]

theorem positiveDefinite_passive (h : Stamped l c timestep time previous companions e)
    (hpassive : ∀ d ∈ c.components, d.device.IsPassive) (ht : 0 < timestep)
    (hlinked : ∀ n : Node, n.number.toNat < c.numNodes →
      Relation.ReflTransGen c.Linked .ground n) : e.admittances.PositiveDefinite := by
  intro x hx hne
  rw [h.equation.size_eq] at hx
  rw [dot_mulVec h hpassive ht hx]
  have hterms : ∀ v ∈ c.components.map fun d =>
      d.device.conductance timestep * d.device.drop x * d.device.drop x, 0 ≤ v := by
    intro v hv
    obtain ⟨d, hd, rfl⟩ := List.mem_map.1 hv
    rw [mul_assoc]
    exact mul_nonneg ((hpassive d hd).conductance_pos ht).le (mul_self_nonneg _)
  refine lt_of_le_of_ne (List.sum_nonneg hterms) fun hzero => ?_
  -- every square is zero, so the solution is
  have hdrop : ∀ d ∈ c.components, d.device.drop x = 0 := by
    intro d hd
    have hterm := List.all_zero_of_le_zero_le_of_sum_eq_zero hterms hzero.symm
      (List.mem_map.2 ⟨d, hd, rfl⟩)
    have hpos := (hpassive d hd).conductance_pos ht
    rw [mul_assoc, mul_eq_zero, mul_self_eq_zero] at hterm
    exact hterm.resolve_left hpos.ne'
  obtain ⟨v, hv, hne⟩ := hne
  obtain ⟨i, hi, rfl⟩ := List.getElem_of_mem hv
  have hnodes : i < l.numNodes - 1 := by
    have hsources := numSources_passive h.circuit.numbered hpassive
    rw [h.circuit.numSources_eq] at hsources
    rw [hx, Layout.size, hsources] at hi
    exact hi
  obtain ⟨hn, hrow⟩ := row?_nonGround l hnodes
  have hvoltage := voltageIn_of_connected hpassive hdrop (hlinked ⟨UInt64.ofNat (1 + i)⟩
    (by rw [hn, h.circuit.numNodes_eq]; omega))
  rw [voltageIn, hrow, unknownAt_some, List.getD_eq_getElem?_getD,
    List.getElem?_eq_getElem hi] at hvoltage
  exact hne hvoltage

/-- A passive circuit is refused only when it has too many nodes. -/
theorem exists_staticEquation_passive (hc : c.Numbered)
    (hvalid : c.validate = (.ok () : Outcome α Unit))
    (hpassive : ∀ d ∈ c.components, d.device.IsPassive)
    (hsize : c.numNodes - 1 < Equation.sizeLimit) : ∃ e₀, c.staticEquation = .ok e₀ := by
  have hvalidates := c.validates
  rw [hvalid] at hvalidates
  cases hvalidates with
  | valid htwo _ _ =>
    have hrows : ¬ Equation.sizeLimit ≤ c.numNodes - 1 + c.numSources := by
      rw [numSources_passive hc hpassive]
      omega
    obtain ⟨blank, hblank⟩ : ∃ blank : Equation α,
        Equation.blank c.numNodes c.numSources = .ok blank := by
      rw [Equation.blank, if_neg (Nat.not_lt_of_le htwo)]
      exact ⟨_, if_neg hrows⟩
    rcases staticEquation_or_check hc hvalid hblank with hok | ⟨d, hd, f, hf, -⟩
    · exact hok
    · rw [Component.check_passive (hpassive d hd)] at hf
      cases hf

/-- The matrix of every tick of an accepted passive circuit is symmetric and positive definite,
whatever the state before. So the equation is never truly singular: it is solved, or elimination
stops at a pivot that is too small but not zero. -/
theorem passive_definite (hc : c.Built) (hvalid : c.validate = (.ok () : Outcome α Unit))
    (hpassive : ∀ d ∈ c.components, d.device.IsPassive) :
    c.nonlinear = [] ∧
    (c.numNodes - 1 < Equation.sizeLimit → ∃ e₀, c.staticEquation = .ok e₀) ∧
    ∀ e₀, c.staticEquation = .ok e₀ → ∀ (timestep time : α) (previous : CircuitState α),
      0 < timestep →
      ∃ companions e, c.stampTick timestep time previous e₀ = .ok companions e ∧
        e.admittances.size = c.numNodes - 1 ∧ e.admittances.Symmetric ∧
        e.admittances.PositiveDefinite ∧
        ((∃ x, e.solve = .ok x ∧ x.length = e.admittances.size ∧
            e.admittances.mulVec x = e.inputs) ∨
          e.solve = .error (.failed .singularMatrix) ∧
            ∃ m left, Row.Left e.admittances.size (Row.zip e.admittances.rows e.inputs) m left ∧
              Row.Stalled left) := by
  refine ⟨?_, exists_staticEquation_passive hc.numbered hvalid hpassive, ?_⟩
  · refine List.filter_eq_nil_iff.2 fun d hd hnonlinear => ?_
    rw [Component.isNonlinear, (hpassive d hd).isNonlinear_eq] at hnonlinear
    cases hnonlinear
  intro e₀ he₀ timestep time previous ht
  obtain ⟨l, blank, hpart⟩ := staticPart hc.numbered he₀
  obtain ⟨e, hstamp, -⟩ := hpart.stampTick_ok ((Scalar.isPositive_iff timestep).2 ht) time previous
  obtain ⟨l, h⟩ := stamped_of_stampTick hc.numbered he₀ hstamp
  have hdefinite : e.admittances.PositiveDefinite :=
    positiveDefinite_passive h hpassive ht fun n hn => linked_of_validate hvalid hn
  have hsize : e.admittances.size = c.numNodes - 1 := by
    rw [h.equation.size_eq, Layout.size, ← h.circuit.numNodes_eq, ← h.circuit.numSources_eq,
      numSources_passive hc.numbered hpassive, Nat.add_zero]
  refine ⟨_, e, hstamp, hsize, symmetric_passive h hpassive ht, hdefinite, ?_⟩
  have hlen : e.inputs.length = e.admittances.size :=
    h.equation.length_eq.trans h.equation.size_eq.symm
  rcases Matrix.solve_settles hlen with ⟨x, hx⟩ | hsingular
  · obtain ⟨hxlen, hrows⟩ := Matrix.solve_sound hx
    refine .inl ⟨x, hx, hxlen, ?_⟩
    refine List.ext_getElem? fun i => ?_
    rw [Matrix.mulVec_eq, List.getElem?_map]
    by_cases hi : i < e.admittances.size
    · rw [hrows i hi, List.getElem?_range hi]
      rfl
    · rw [List.getElem?_eq_none (by simpa using hi), List.getElem?_eq_none (by omega)]
      rfl
  · exact .inr ⟨hsingular, (hdefinite.regular e.inputs).stalled hsingular⟩

/-- Two capacitors side by side and a resistor with both ends at one node, on the way from a
resistor to an inductor. -/
def ladder : Circuit ℚ where
  components :=
    [⟨⟨0⟩, "R0", .resistor ⟨1⟩ .ground 2 .intact⟩,
      ⟨⟨1⟩, "C1", .capacitor ⟨1⟩ ⟨2⟩ 1⟩,
      ⟨⟨2⟩, "C2", .capacitor ⟨2⟩ ⟨1⟩ 3⟩,
      ⟨⟨3⟩, "R3", .resistor ⟨2⟩ ⟨2⟩ 5 .shorted⟩,
      ⟨⟨4⟩, "L4", .inductor ⟨2⟩ .ground 4⟩]
  numNodes := 3
  numSources := 0

theorem passive_definite_ladder :
    ∃ e₀ companions e, ladder.staticEquation = .ok e₀ ∧
      ladder.stampTick 1 1 [] e₀ = .ok companions e ∧ e.admittances.size = 2 ∧
      e.admittances.Symmetric ∧ e.admittances.PositiveDefinite := by
  have hbuilt : ladder.Built := ⟨ladder.components, rfl⟩
  have hpassive : ∀ d ∈ ladder.components, d.device.IsPassive := by
    simp [ladder, Device.IsPassive, ResistorFault.effective]
    norm_num
  obtain ⟨-, hexists, hall⟩ := passive_definite hbuilt rfl hpassive
  obtain ⟨e₀, he₀⟩ := hexists (by decide)
  obtain ⟨companions, e, hstamp, hsize, hsymmetric, hdefinite, -⟩ :=
    hall e₀ he₀ 1 1 [] one_pos
  exact ⟨e₀, companions, e, he₀, hstamp, hsize, hsymmetric, hdefinite⟩

end Circuit

end Nodal
