import Nodal.Proofs.Residual

/-! # The slopes of a residual

What the Jacobian of a tick equation has in every cell: the admittance, the leakage on the diagonal,
and for each nonlinear component the slope of its current along the column's unknown. The slopes of
a transistor have one form for all of its regions. -/

namespace Nodal

/-! ## The square law in one form -/

namespace MosfetParams
variable {α : Type} [ExactScalar α]

/-- The current through the channel by how far the gate is above the threshold, seen from the source
and seen from the drain. -/
def flow (p : MosfetParams α) (u w : α) : α :=
  p.gain / 2 * (max u 0 ^ 2 - max w 0 ^ 2) * (1 + p.lambda * |u - w|)

/-- The slope of the flow along `u`. -/
def flowSlope (p : MosfetParams α) (u w : α) : α :=
  p.gain * max u 0 * (1 + p.lambda * |u - w|) +
    p.gain / 2 * (max u 0 ^ 2 - max w 0 ^ 2) * (p.lambda * if w ≤ u then 1 else -1)

theorem flow_swap (p : MosfetParams α) (u w : α) : p.flow w u = -p.flow u w := by
  rw [flow, flow, abs_sub_comm]
  ring

theorem flowSlope_of_le (p : MosfetParams α) {u w : α} (h : w ≤ u) :
    p.flowSlope w u = p.gain * max w 0 * (1 + p.lambda * (u - w)) +
      p.gain / 2 * (max u 0 ^ 2 - max w 0 ^ 2) * p.lambda := by
  rw [flowSlope, abs_sub_comm, abs_of_nonneg (sub_nonneg.2 h)]
  rcases h.lt_or_eq with hlt | rfl
  · rw [if_neg (not_le.2 hlt)]
    ring
  · rw [if_pos le_rfl]
    ring

/-- Off, triode region and saturation are one flow. -/
theorem forward_eq (p : MosfetParams α) {u w : α} (h : w ≤ u) :
    p.forward (u + p.vth) (u - w) =
      (p.flow u w, p.flowSlope u w - p.flowSlope w u, p.flowSlope w u) := by
  have hhalf : (0.5 : α) = 1 / 2 := by norm_num
  have habs : |u - w| = u - w := abs_of_nonneg (sub_nonneg.2 h)
  rw [p.flowSlope_of_le h, flow, flowSlope, if_pos h, habs]
  simp only [forward, add_sub_cancel_right, hhalf]
  by_cases hu : u ≤ 0
  · -- off: the gate is below the threshold seen from both ends
    rw [if_pos hu, max_eq_right hu, max_eq_right (h.trans hu)]
    simp
  rw [if_neg hu, max_eq_left (not_le.1 hu).le]
  by_cases hw : u - w < u
  · rw [if_pos hw, max_eq_left (sub_lt_self_iff u |>.1 hw).le]
    simp only [Prod.mk.injEq]
    refine ⟨?_, ?_, ?_⟩ <;> ring
  · rw [if_neg hw, max_eq_right (not_lt.1 (mt (sub_lt_self_iff u).2 hw))]
    simp only [Prod.mk.injEq]
    refine ⟨?_, ?_, ?_⟩ <;> ring

/-- When drain and source change parts the flow only turns round. -/
theorem operatingPoint_eq (p : MosfetParams α) (channel : Channel) {drain gate source u w : α}
    (hu : channel.polarity * (gate - source) = u + p.vth)
    (hw : channel.polarity * (gate - drain) = w + p.vth) :
    p.operatingPoint channel drain gate source =
      ⟨channel.polarity * p.flow u w, p.flowSlope w u, p.flowSlope u w - p.flowSlope w u,
        -p.flowSlope u w⟩ := by
  have hds : channel.polarity * (drain - source) = u - w := by
    rw [← add_sub_add_right_eq_sub u w p.vth, ← hu, ← hw]
    ring
  unfold operatingPoint
  simp only [hu, hw, hds]
  by_cases h : w ≤ u
  · rw [if_pos (sub_nonneg.2 h), p.forward_eq h]
    simp
  · rw [if_neg (mt sub_nonneg.1 h), neg_sub, p.forward_eq (not_le.1 h).le, p.flow_swap]
    simp

end MosfetParams

variable {α : Type} [ExactScalar α]

/-! ## Adding to the cells of a matrix -/

/-- A change of matrices of one size that succeeds and adds `w` to the entries. -/
def Matrix.Gains (n : Nat) (f : Matrix α → Outcome α (Matrix α)) (w : Nat → Nat → α) : Prop :=
  ∀ m, m.size = n → ∃ m', f m = .ok m' ∧ m'.size = n ∧
    ∀ i j, j < n → m'.entry i j = m.entry i j + w i j

namespace Matrix.Gains
variable {n : Nat} {f g : Matrix α → Outcome α (Matrix α)} {w w' : Nat → Nat → α}

theorem congr (h : Gains n f w) (hw : ∀ i j, w i j = w' i j) : Gains n f w' := by
  intro m hm
  obtain ⟨m', hf, hs, he⟩ := h m hm
  exact ⟨m', hf, hs, fun i j hj => by rw [he i j hj, hw]⟩

theorem pure : Gains n (fun m => (Pure.pure m : Outcome α (Matrix α))) fun _ _ => 0 := by
  intro m hm
  exact ⟨m, rfl, hm, fun i j _ => (add_zero _).symm⟩

theorem bind (hf : Gains n f w) (hg : Gains n g w') :
    Gains n (fun m => f m >>= g) fun i j => w i j + w' i j := by
  intro m hm
  obtain ⟨m₁, h₁, hs₁, he₁⟩ := hf m hm
  obtain ⟨m₂, h₂, hs₂, he₂⟩ := hg m₁ hs₁
  refine ⟨m₂, ?_, hs₂, fun i j hj => ?_⟩
  · show f m >>= g = _
    rw [h₁, Outcome.ok_bind, h₂]
  · rw [he₂ i j hj, he₁ i j hj, add_assoc]

theorem foldlM {ι : Type} {f : Matrix α → ι → Outcome α (Matrix α)} {w : ι → Nat → Nat → α}
    {ds : List ι} (h : ∀ d ∈ ds, Gains n (fun m => f m d) (w d)) :
    Gains n (fun m => ds.foldlM f m) fun i j => (ds.map fun d => w d i j).sum := by
  induction ds with
  | nil => exact pure
  | cons d ds ih =>
    have hd := h d List.mem_cons_self
    have hds := ih fun d hd => h d (List.mem_cons_of_mem _ hd)
    exact hd.bind hds

theorem add {r c : Nat} (v : α) (hr : r < n) (hc : c < n) (hn : n < Equation.sizeLimit) :
    Gains n (fun m => m.add r c v) fun i j => if i = r ∧ j = c then v else 0 := by
  rintro m rfl
  exact m.add_ok v hr hc hn

end Matrix.Gains

namespace Layout
variable (l : Layout)

theorem gains_addNodes {a b : Node} (v : α) (ha : a.number.toNat < l.numNodes)
    (hb : b.number.toNat < l.numNodes) :
    Matrix.Gains l.size (fun m => m.addNodes a b v)
      fun i j => atRow a.row? (atRow b.row? v j) i := by
  have hsize : l.numNodes - 1 ≤ l.size := Nat.le_add_right ..
  unfold Matrix.addNodes
  cases har : a.row? with
  | none => exact Matrix.Gains.pure.congr fun i j => rfl
  | some r =>
    cases hbr : b.row? with
    | none => exact Matrix.Gains.pure.congr fun i j => by simp [atRow]
    | some c =>
      have hr : r < l.size := (Node.row?_lt ha har).trans_le hsize
      have hc : c < l.size := (Node.row?_lt hb hbr).trans_le hsize
      refine (Matrix.Gains.add v hr hc l.size_lt).congr fun i j => ?_
      simp only [atRow, Option.some.injEq, eq_comm (a := r), eq_comm (a := c)]
      exact ite_and ..

theorem gains_addSlope {drain source along : Node} (g : α) (hd : drain.number.toNat < l.numNodes)
    (hs : source.number.toNat < l.numNodes) (ha : along.number.toNat < l.numNodes) :
    Matrix.Gains l.size (fun m => Component.addSlope m drain source along g)
      fun i j => pathRow drain source (atRow along.row? g j) i := by
  refine ((l.gains_addNodes g hd ha).bind (l.gains_addNodes (-g) hs ha)).congr fun i j => ?_
  rw [pathRow, sub_eq_add_neg]
  congr 1
  unfold atRow
  by_cases hrow : source.row? = some i
  · rw [if_pos hrow, if_pos hrow]
    split <;> simp
  · rw [if_neg hrow, if_neg hrow, neg_zero]

end Layout

/-! ## The Jacobian -/

namespace Component

/-- The slope, along the unknown of column `j`, of what the component draws in row `i`. -/
def slope (d : Component α) (x : List α) (i j : Nat) : α :=
  match d.device with
  | .diode anode cathode params =>
    let g := params.conductance (voltageIn x anode - voltageIn x cathode)
    pathRow anode cathode (pathRow anode cathode g j) i
  | .mosfet drain gate source channel params =>
    let point := params.operatingPoint channel (voltageIn x drain) (voltageIn x gate)
      (voltageIn x source)
    pathRow drain source (atRow drain.row? point.alongDrain j) i +
      pathRow drain source (atRow gate.row? point.alongGate j) i +
      pathRow drain source (atRow source.row? point.alongSource j) i
  | _ => 0

theorem addSlopes_gains {l : Layout} {d : Component α} (h : d.Fits l) {x : List α}
    (hx : l.numNodes - 1 ≤ x.length) :
    Matrix.Gains l.size (fun m => d.addSlopes x m) (d.slope x) := by
  obtain ⟨id, name, device⟩ := d
  cases device with
  | diode anode cathode params =>
    obtain ⟨ha, hc⟩ := h.pair rfl
    simp only [addSlopes, pairVoltage_ok ha hc hx, Outcome.ok_bind]
    refine ((l.gains_addNodes _ ha ha).bind ((l.gains_addNodes _ hc hc).bind
      ((l.gains_addNodes _ ha hc).bind (l.gains_addNodes _ hc ha)))).congr fun i j => ?_
    simp only [slope, pathRow, atRow]
    split_ifs <;> ring
  | mosfet drain gate source channel params =>
    obtain ⟨hd, hg, hs⟩ := h.triple rfl
    simp only [addSlopes, pointAt_ok hd hg hs hx, Outcome.ok_bind]
    refine ((l.gains_addSlope _ hd hs hd).bind ((l.gains_addSlope _ hd hs hg).bind
      (l.gains_addSlope _ hd hs hs))).congr fun i j => ?_
    rw [← add_assoc]
    rfl
  | _ => exact Matrix.Gains.pure

end Component

namespace Equation
variable {l : Layout} {e : Equation α}

/-- The slope of the leakage. -/
def leakSlope (l : Layout) (gmin : α) (i j : Nat) : α :=
  if i = j ∧ i < l.numNodes - 1 then gmin else 0

theorem leak_gains (l : Layout) (gmin : α) :
    Matrix.Gains l.size
      (fun m => (List.range (l.numNodes - 1)).foldlM (fun m i => m.add i i gmin) m)
      (leakSlope l gmin) := by
  have hsize : l.numNodes - 1 ≤ l.size := Nat.le_add_right ..
  have hadd : ∀ d ∈ List.range (l.numNodes - 1), Matrix.Gains l.size (fun m => m.add d d gmin)
      fun i j => if i = d ∧ j = d then gmin else 0 := by
    intro d hd
    have hd : d < l.size := (List.mem_range.1 hd).trans_le hsize
    exact Matrix.Gains.add gmin hd hd l.size_lt
  refine (Matrix.Gains.foldlM hadd).congr fun i j => ?_
  by_cases h : i = j ∧ i < l.numNodes - 1
  · rw [leakSlope, if_pos h]
    obtain ⟨rfl, hi⟩ := h
    exact sum_ite_unique (p := fun d => i = d ∧ i = d) (fun _ => gmin) List.nodup_range
      (List.mem_range.2 hi) fun d _ => by simp [eq_comm]
  · rw [leakSlope, if_neg h]
    refine List.sum_eq_zero fun v hv => ?_
    obtain ⟨d, hd, rfl⟩ := List.mem_map.1 hv
    have hne : ¬ (i = d ∧ j = d) := by
      rintro ⟨rfl, rfl⟩
      exact h ⟨rfl, List.mem_range.1 hd⟩
    exact if_neg hne

theorem jacobian_entries (he : e.Fits l) {elements : List (Component α)}
    (hfits : ∀ d ∈ elements, d.Fits l) (gmin : α) {x : List α} (hx : l.numNodes - 1 ≤ x.length) :
    ∃ m, e.jacobian elements gmin x = .ok m ∧ m.size = l.size ∧ ∀ i j, j < l.size →
      m.entry i j = e.admittances.entry i j +
        (leakSlope l gmin i j + (elements.map fun d => d.slope x i j).sum) := by
  have hslopes := Matrix.Gains.foldlM (f := fun m d => d.addSlopes x m)
    fun d hd => Component.addSlopes_gains (hfits d hd) hx
  obtain ⟨m, hm, hs, hentry⟩ := ((leak_gains l gmin).bind hslopes) e.admittances he.size_eq
  refine ⟨m, ?_, hs, hentry⟩
  unfold jacobian
  rw [numNodeRows, he.numNodes_eq]
  exact hm

end Equation

end Nodal
