import Nodal.Proofs.Ranges
import Nodal.Proofs.TickEquation

/-! # The residual of a trial solution

The residual that the solver sees is the imbalance of the state that would be derived from the trial
solution: the solver evaluates currents on the way, the state tells them afterwards, and over exact
arithmetic the two agree in every row. -/

namespace Nodal

section Sums
variable {ι β : Type} [AddCommMonoid β]

/-- The one entry that fulfils the condition makes up the sum. -/
theorem sum_ite_unique {p : ι → Prop} [DecidablePred p] (f : ι → β) {xs : List ι} {d : ι}
    (hnd : xs.Nodup) (hd : d ∈ xs) (hp : ∀ e ∈ xs, p e ↔ e = d) :
    (xs.map fun e => if p e then f e else 0).sum = f d := by
  induction xs with
  | nil => cases hd
  | cons x xs ih =>
    obtain ⟨hx, hnd⟩ := List.nodup_cons.1 hnd
    have hpx := hp x List.mem_cons_self
    have hpxs := fun e he => hp e (List.mem_cons_of_mem _ he)
    rw [List.map_cons, List.sum_cons]
    rcases List.mem_cons.1 hd with rfl | hd
    · have hrest : ∀ e ∈ xs, (if p e then f e else 0) = 0 := by
        intro e he
        rw [if_neg fun h => hx ((hpxs e he).1 h ▸ he)]
      rw [if_pos (hpx.2 rfl), List.map_congr_left hrest]
      simp
    · have hne : ¬ p x := fun h => hx (hpx.1 h ▸ hd)
      rw [if_neg hne, zero_add, ih hnd hd hpxs]

theorem sum_filter (p : ι → Bool) (f : ι → β) (xs : List ι) :
    ((xs.filter p).map f).sum = (xs.map fun e => if p e then f e else 0).sum := by
  induction xs with
  | nil => rfl
  | cons x xs ih =>
    by_cases hx : p x <;> simp [hx, ih]

end Sums

section Vectors
variable {α : Type} [ExactScalar α]

theorem modify_map_range (F : Nat → α) (n r : Nat) (f : α → α) (v : α) (hf : ∀ a, f a = a + v) :
    ((List.range n).map F).modify r f = (List.range n).map fun i => F i + atRow (some r) v i := by
  refine List.ext_getElem (by simp) fun i h1 h2 => ?_
  rw [List.getElem_modify]
  simp only [List.getElem_map, List.getElem_range, atRow, Option.some.injEq]
  split <;> simp [hf]

theorem add_pathRow (a b : Node) (current v : α) (i : Nat) :
    v + atRow a.row? current i + atRow b.row? (-current) i = v + pathRow a b current i := by
  simp only [pathRow, atRow]
  split_ifs <;> ring

theorem modifyNode_ok {F : Nat → α} {n : Node} {k size : Nat} {f : α → α} {v : α}
    (hn : n.number.toNat < k) (hk : k - 1 ≤ size) (hf : ∀ a, f a = a + v) :
    modifyNode ((List.range size).map F) n f =
      .ok ((List.range size).map fun i => F i + atRow n.row? v i) := by
  unfold modifyNode
  cases hr : n.row? with
  | none => simp [atRow]
  | some r =>
    have hlt : r < k - 1 := Node.row?_lt hn hr
    simp only [List.length_map, List.length_range]
    rw [if_pos (by omega), modify_map_range F size r f v hf]
    rfl

namespace Component
variable {l : Layout} {d : Component α}

/-- What a nonlinear component adds to a residual is what it contributes. -/
theorem addCurrents_ok (h : d.Fits l) (hd : d.device.isNonlinear) (time : α) {x : List α}
    (hx : l.numNodes - 1 ≤ x.length) (F : Nat → α) :
    d.addCurrents x ((List.range l.size).map F) = .ok ((List.range l.size).map fun i =>
      F i + d.contribution l time (d.tickState ⟨0 :: x, l.numNodes⟩ none) i) := by
  obtain ⟨id, name, device⟩ := d
  have hsize : l.numNodes - 1 ≤ l.size := Nat.le_add_right ..
  cases device with
  | diode anode cathode params =>
    obtain ⟨ha, hc⟩ := h.pair rfl
    simp only [addCurrents, pairVoltage_ok ha hc hx, Outcome.ok_bind]
    rw [modifyNode_ok ha hsize fun _ => rfl, Outcome.ok_bind,
      modifyNode_ok hc hsize fun a => sub_eq_add_neg a _]
    congr 1
    refine List.map_congr_left fun i _ => ?_
    rw [contribution_path rfl rfl rfl, Solution.voltage_eq, Solution.voltage_eq, ← add_pathRow]
  | mosfet drain gate source channel params =>
    obtain ⟨hdr, hga, hso⟩ := h.triple rfl
    simp only [addCurrents, pointAt_ok hdr hga hso hx, Outcome.ok_bind]
    rw [modifyNode_ok hdr hsize fun _ => rfl, Outcome.ok_bind,
      modifyNode_ok hso hsize fun a => sub_eq_add_neg a _]
    congr 1
    refine List.map_congr_left fun i _ => ?_
    rw [contribution_path rfl rfl rfl, Solution.voltage_eq, Solution.voltage_eq,
      Solution.voltage_eq, ← add_pathRow]
  | _ => cases hd

end Component

namespace Equation
variable {l : Layout} {e : Equation α}

theorem zipWith_defect (he : e.Fits l) (x : List α) :
    List.zipWith (· - ·) (e.admittances.mulVec x) e.inputs =
      (List.range l.size).map (e.defect x) := by
  rw [Matrix.mulVec_eq]
  refine List.ext_getElem (by simp [he.size_eq, he.length_eq]) fun i h1 h2 => ?_
  have hi : i < e.inputs.length := by
    rw [he.length_eq]; simpa using h2
  simp [defect, List.getD_eq_getElem?_getD, List.getElem?_eq_getElem hi]

/-- The part of the residual that comes from the leakage. -/
def leakRow (l : Layout) (gmin : α) (x : List α) (i : Nat) : α :=
  if i < l.numNodes - 1 then gmin * x.getD i 0 else 0

theorem addLeakage_ok (he : e.Fits l) (gmin : α) {x : List α} (hx : l.numNodes - 1 ≤ x.length)
    (F : Nat → α) :
    e.addLeakage gmin x ((List.range l.size).map F) =
      .ok ((List.range l.size).map fun i => F i + leakRow l gmin x i) := by
  have hsize : l.numNodes - 1 ≤ l.size := Nat.le_add_right ..
  let rows (k : Nat) :=
    (List.range l.size).map fun i => F i + if i < k then gmin * x.getD i 0 else 0
  have hstart : (List.range l.size).map F = rows 0 :=
    List.map_congr_left fun i _ => by rw [if_neg (Nat.not_lt_zero i), add_zero]
  unfold addLeakage
  rw [numNodeRows, he.numNodes_eq, hstart]
  refine Outcome.foldlM_range rows fun k hk => ?_
  have hxk : k < x.length := by omega
  rw [List.getElem?_eq_getElem hxk]
  simp only [rows, List.length_map, List.length_range]
  rw [if_pos (by omega), modify_map_range _ _ _ _ (gmin * x[k]) fun _ => rfl, Outcome.pure_eq_ok]
  congr 1
  refine List.map_congr_left fun i _ => ?_
  simp only [atRow, Option.some.injEq]
  rcases Nat.lt_trichotomy i k with h | rfl | h
  · simp [h, show ¬ k = i by omega, show i < k + 1 by omega]
  · simp [List.getElem?_eq_getElem hxk]
  · simp [show ¬ i < k by omega, show ¬ k = i by omega, show ¬ i < k + 1 by omega]

/-- Every row of a residual is the defect with the leakage and what the nonlinear components
contribute. -/
theorem residual_rows (he : e.Fits l) {elements : List (Component α)}
    (hfits : ∀ d ∈ elements, d.Fits l ∧ d.device.isNonlinear) (gmin time : α) {x : List α}
    (hx : l.numNodes - 1 ≤ x.length) :
    e.residual elements gmin x = .ok ((List.range l.size).map fun i =>
      e.defect x i + leakRow l gmin x i + (elements.map fun d =>
        d.contribution l time (d.tickState ⟨0 :: x, l.numNodes⟩ none) i).sum) := by
  have hfold : ∀ (ds : List (Component α)) (F : Nat → α),
      (∀ d ∈ ds, d.Fits l ∧ d.device.isNonlinear) →
      ds.foldlM (fun f d => d.addCurrents x f) ((List.range l.size).map F) =
        (.ok ((List.range l.size).map fun i => F i + (ds.map fun d =>
          d.contribution l time (d.tickState ⟨0 :: x, l.numNodes⟩ none) i).sum) : Outcome α _) := by
    intro ds
    induction ds with
    | nil => intro F _; simp
    | cons d ds ih =>
      intro F hds
      obtain ⟨hd, hnl⟩ := hds d List.mem_cons_self
      rw [List.foldlM_cons, Component.addCurrents_ok hd hnl time hx F, Outcome.ok_bind,
        ih _ fun d hd => hds d (List.mem_cons_of_mem _ hd)]
      congr 1
      refine List.map_congr_left fun i _ => ?_
      rw [List.map_cons, List.sum_cons, add_assoc]
  unfold residual
  simp only [zipWith_defect he, addLeakage_ok he gmin hx, Outcome.ok_bind]
  exact hfold _ _ hfits

/-- A residual is only found for a trial solution that has all node voltages. -/
theorem length_of_residual {elements : List (Component α)} {gmin : α} {x f : List α}
    (he : e.Fits l) (h : e.residual elements gmin x = .ok f) : l.numNodes - 1 ≤ x.length := by
  unfold residual at h
  obtain ⟨f₁, h₁, -⟩ := Outcome.bind_eq_ok.1 h
  by_contra hlt
  have hlt : x.length < e.numNodeRows := by rw [numNodeRows, he.numNodes_eq]; omega
  obtain ⟨c₁, c₂, hstep⟩ := Outcome.step_of_foldlM h₁ x.length (List.mem_range.2 hlt)
  rw [List.getElem?_eq_none le_rfl] at hstep
  cases hstep

end Equation

end Vectors

variable {α : Type} [ExactScalar α]

namespace Circuit

theorem nonGroundNodes_eq {α : Type} (l : Layout) {c : Circuit α} (h : c.Fits l) :
    c.nonGroundNodes = (List.range (l.numNodes - 1)).map fun i => ⟨UInt64.ofNat (1 + i)⟩ := by
  rw [nonGroundNodes, h.numNodes_eq, List.range'_eq_map_range, List.map_map]
  rfl

theorem row?_nonGround (l : Layout) {i : Nat} (hi : i < l.numNodes - 1) :
    (⟨UInt64.ofNat (1 + i)⟩ : Node).number.toNat = i + 1 ∧
      (⟨UInt64.ofNat (1 + i)⟩ : Node).row? = some i := by
  have h1 := l.numNodes_lt
  have h2 : Equation.sizeLimit < 2 ^ 64 := by decide
  have hn : (⟨UInt64.ofNat (1 + i)⟩ : Node).number.toNat = i + 1 := by
    simp only [UInt64.toNat_ofNat']
    omega
  refine ⟨hn, ?_⟩
  have hg : ¬ (⟨UInt64.ofNat (1 + i)⟩ : Node).isGround := by
    intro hg
    have : UInt64.ofNat (1 + i) = 0 := by simpa [Node.isGround] using hg
    have : (⟨UInt64.ofNat (1 + i)⟩ : Node).number.toNat = 0 := congrArg UInt64.toNat this
    omega
  rw [Node.row?, if_neg hg, hn, Nat.add_sub_cancel]

/-- The sum of what all components contribute in a row. -/
def totalRow (l : Layout) (c : Circuit α) (timestep time : α) (previous : CircuitState α)
    (x : List α) (i : Nat) : α :=
  (c.components.map fun d => d.contribution l time (c.stateOf timestep previous x d) i).sum

section Total
variable {l : Layout} {c : Circuit α} {timestep time : α} {previous : CircuitState α}
  {companions : Companions α} {e : Equation α}

/-- In the row of a node the contributions add up to the net current. -/
theorem totalRow_node (h : Stamped l c timestep time previous companions e) (x : List α) {i : Nat}
    (hi : i < l.numNodes - 1) :
    totalRow l c timestep time previous x i =
      c.netCurrent (c.statesOf timestep previous x) ⟨UInt64.ofNat (1 + i)⟩ := by
  obtain ⟨hn, hrow⟩ := row?_nonGround l hi
  unfold totalRow netCurrent
  congr 1
  refine List.map_congr_left fun d hd => ?_
  rw [h.get?_state x hd, Option.getD_some]
  exact Component.contribution_node time _ (by omega) hrow

theorem totalRow_branch (h : Stamped l c timestep time previous companions e) (x : List α)
    {k : Nat} {d : Component α} (hd : c.sources[k]? = some d) :
    totalRow l c timestep time previous x (l.branchRow ⟨k⟩) =
      d.device.violation time (c.stateOf timestep previous x d).voltages := by
  have hnum := h.circuit.numbered
  have hrows : ∀ e ∈ c.components,
      e.contribution l time (c.stateOf timestep previous x e) (l.branchRow ⟨k⟩) =
        if e.device.branch? = some ⟨k⟩ then
          e.device.violation time (c.stateOf timestep previous x e).voltages else 0 := by
    intro e he
    exact Component.contribution_branch (h.circuit.component he) time _ _
  rw [totalRow, List.map_congr_left hrows]
  exact sum_ite_unique _ (List.Nodup.of_map _ hnum.nodup_ids) (mem_of_source hd)
    fun e he => hnum.branch?_eq_iff hd he

theorem rows_eq_imbalance (h : Stamped l c timestep time previous companions e) (gmin : α)
    (x : List α) :
    (List.range l.size).map (fun i =>
      totalRow l c timestep time previous x i + Equation.leakRow l gmin x i) =
        c.imbalance gmin time (0 :: x) (c.statesOf timestep previous x) := by
  rw [Layout.size, List.range_add, List.map_append, imbalance, nonGroundNodes_eq l h.circuit]
  congr 1
  · rw [List.map_map]
    refine List.map_congr_left fun i hi => ?_
    have hi := List.mem_range.1 hi
    obtain ⟨-, hrow⟩ := row?_nonGround l hi
    rw [Function.comp_apply, totalRow_node h x hi, Solution.voltage_eq, voltageIn, hrow,
      unknownAt_some, Equation.leakRow, if_pos hi, add_comm]
  · have hlen : c.sources.length = l.numSources := by
      rw [h.circuit.numbered.length_sources, h.circuit.numSources_eq]
    refine List.ext_getElem (by simp [hlen]) fun k h1 h2 => ?_
    have hlt : k < c.sources.length := by simpa using h2
    have hk : c.sources[k]? = some c.sources[k] := List.getElem?_eq_getElem hlt
    simp only [List.getElem_map, List.getElem_range]
    rw [h.get?_state x (mem_of_source hk), Option.getD_some, ← totalRow_branch h x hk]
    simp [Equation.leakRow, Layout.branchRow]

theorem defect_linear (h : Stamped l c timestep time previous companions e)
    (hlin : c.hasNonlinear = false) (x : List α) (i : Nat) :
    e.defect x i = totalRow l c timestep time previous x i := by
  rw [h.defect_eq, totalRow]
  congr 1
  refine List.map_congr_left fun d hd => ?_
  rw [if_neg fun hnl => ?_]
  have : c.hasNonlinear = true := List.any_eq_true.2 ⟨d, hd, hnl⟩
  rw [hlin] at this
  cases this

theorem nonlinear_states {d : Component α} (hd : d.device.isNonlinear) (x : List α) :
    c.stateOf timestep previous x d = d.tickState ⟨0 :: x, c.numNodes⟩ none := by
  obtain ⟨id, name, device⟩ := d
  cases device <;> first | rfl | cases hd

/-- The residual of a trial solution is the imbalance of the states derived from it. -/
theorem residual_eq_imbalance (h : Stamped l c timestep time previous companions e) (gmin : α)
    {x : List α} (hx : l.numNodes - 1 ≤ x.length) :
    e.residual c.nonlinear gmin x =
      .ok (c.imbalance gmin time (0 :: x) (c.statesOf timestep previous x)) := by
  rw [Equation.residual_rows h.equation (fits_nonlinear h.circuit) gmin time hx,
    ← rows_eq_imbalance h]
  congr 1
  refine List.map_congr_left fun i _ => ?_
  rw [h.defect_eq, nonlinear, sum_filter, totalRow, add_right_comm, ← List.sum_map_add]
  congr 2
  refine List.map_congr_left fun d _ => ?_
  by_cases hd : d.device.isNonlinear
  · simp [hd, Component.isNonlinear, nonlinear_states hd, h.circuit.numNodes_eq]
  · simp [hd, Component.isNonlinear]

end Total

end Circuit

end Nodal
