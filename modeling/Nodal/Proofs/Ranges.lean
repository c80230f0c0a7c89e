import Nodal.Proofs.Branches

/-! # Positions within range

An equation with a layout can be evaluated wherever all unknowns have a value, and the state of its
components can be derived from any solution. A circuit has a layout when it is small enough and no
component names the last node: counting wraps around there, so the count says nothing of that node
and it has no place in the tables. -/

namespace Nodal
open Outcome

/-! ## Evaluating an equation -/

/-- A system of `n` equations that can be evaluated at every `x` with `n` entries. -/
structure NonlinearSystem.Total {α : Type} (system : NonlinearSystem α) (n : Nat) : Prop where
  guess : system.guess.length = n
  residual : ∀ x, x.length = n → ∃ f, system.residual x = .ok f ∧ f.length = n
  jacobian : ∀ x, x.length = n → ∃ m, system.jacobian x = .ok m ∧ m.size = n

variable {α : Type} [Scalar α] {l : Layout}

section Nodes
variable {a b : Node} {x : List α} (ha : a.number.toNat < l.numNodes)
  (hb : b.number.toNat < l.numNodes)

include ha in
theorem nodeVoltage_ok (hx : l.numNodes - 1 ≤ x.length) :
    nodeVoltage x a = .ok (voltageIn x a) := by
  unfold nodeVoltage voltageIn
  cases hr : a.row? with
  | none => rfl
  | some r =>
    have hlt : r < x.length := (Node.row?_lt ha hr).trans_le hx
    simp [unknownAt, List.getElem?_eq_getElem hlt]

include ha hb in
theorem Component.pairVoltage_ok (hx : l.numNodes - 1 ≤ x.length) :
    pairVoltage x a b = .ok (voltageIn x a - voltageIn x b) := by
  simp only [pairVoltage, nodeVoltage_ok ha hx, nodeVoltage_ok hb hx, ok_bind, pure_eq_ok]

include ha hb in
theorem Component.pointAt_ok {c : Node} (hc : c.number.toNat < l.numNodes)
    (hx : l.numNodes - 1 ≤ x.length) (channel : Channel) (params : MosfetParams α) :
    pointAt x a b c channel params =
      .ok (params.operatingPoint channel (voltageIn x a) (voltageIn x b) (voltageIn x c)) := by
  simp only [pointAt, nodeVoltage_ok ha hx, nodeVoltage_ok hb hx, nodeVoltage_ok hc hx, ok_bind,
    pure_eq_ok]

omit [Scalar α] in
include ha in
theorem modifyNode_gives {f : List α} (hf : f.length = l.size) (change : α → α) :
    Gives (modifyNode f a change) fun f' => f'.length = l.size := by
  unfold modifyNode
  cases hr : a.row? with
  | none => exact .pure hf
  | some i =>
    have hi : i < f.length := hf ▸ (Node.row?_lt ha hr).trans_le (Nat.le_add_right ..)
    simp only [if_pos hi]
    exact .pure ((List.length_modify ..).trans hf)

theorem Matrix.add_gives {m : Matrix α} {r c : Nat} (hm : m.size = l.size) (hr : r < l.size)
    (hc : c < l.size) (v : α) : Gives (m.add r c v) fun m' => m'.size = l.size := by
  obtain ⟨m', hadd, hsize, -⟩ := m.modify_ok (· + v) (hm ▸ hr) (hm ▸ hc) (hm ▸ l.size_lt)
  exact ⟨m', hadd, hsize.trans hm⟩

include ha hb in
theorem Matrix.addNodes_gives {m : Matrix α} (hm : m.size = l.size) (v : α) :
    Gives (m.addNodes a b v) fun m' => m'.size = l.size := by
  have hle : l.numNodes - 1 ≤ l.size := Nat.le_add_right ..
  unfold addNodes
  cases hra : a.row? with
  | none => exact .pure hm
  | some i =>
    cases hrb : b.row? with
    | none => exact .pure hm
    | some j =>
      exact add_gives hm ((Node.row?_lt ha hra).trans_le hle) ((Node.row?_lt hb hrb).trans_le hle) v

end Nodes

namespace Component
variable {d : Component α} {x : List α}

theorem addSlope_gives {m : Matrix α} {drain source along : Node}
    (hd : drain.number.toNat < l.numNodes) (hs : source.number.toNat < l.numNodes)
    (ha : along.number.toNat < l.numNodes) (hm : m.size = l.size) (g : α) :
    Gives (addSlope m drain source along g) fun m' => m'.size = l.size :=
  (Matrix.addNodes_gives hd ha hm g).bind fun _ hm => Matrix.addNodes_gives hs ha hm (-g)

/-- A component with a place in the layout adds to residuals of this layout. -/
theorem Fits.addCurrents_gives (h : d.Fits l) (hx : l.numNodes - 1 ≤ x.length) {f : List α}
    (hf : f.length = l.size) : Gives (d.addCurrents x f) fun f' => f'.length = l.size := by
  obtain ⟨id, name, device⟩ := d
  cases device with
  | diode anode cathode params =>
    obtain ⟨ha, hc⟩ := h.pair rfl
    simp only [addCurrents, pairVoltage_ok ha hc hx, ok_bind]
    exact (modifyNode_gives ha hf _).bind fun f hf => modifyNode_gives hc hf _
  | mosfet drain gate source channel params =>
    obtain ⟨hd, hg, hs⟩ := h.triple rfl
    simp only [addCurrents, pointAt_ok hd hg hs hx, ok_bind]
    exact (modifyNode_gives hd hf _).bind fun f hf => modifyNode_gives hs hf _
  | _ => exact .pure hf

/-- And it adds to Jacobians. -/
theorem Fits.addSlopes_gives (h : d.Fits l) (hx : l.numNodes - 1 ≤ x.length) {m : Matrix α}
    (hm : m.size = l.size) : Gives (d.addSlopes x m) fun m' => m'.size = l.size := by
  obtain ⟨id, name, device⟩ := d
  cases device with
  | diode anode cathode params =>
    obtain ⟨ha, hc⟩ := h.pair rfl
    simp only [addSlopes, pairVoltage_ok ha hc hx, ok_bind]
    exact (Matrix.addNodes_gives ha ha hm _).bind fun m hm =>
      (Matrix.addNodes_gives hc hc hm _).bind fun m hm =>
        (Matrix.addNodes_gives ha hc hm _).bind fun m hm => Matrix.addNodes_gives hc ha hm _
  | mosfet drain gate source channel params =>
    obtain ⟨hd, hg, hs⟩ := h.triple rfl
    simp only [addSlopes, pointAt_ok hd hg hs hx, ok_bind]
    exact (addSlope_gives hd hs hd hm _).bind fun m hm =>
      (addSlope_gives hd hs hg hm _).bind fun m hm => addSlope_gives hd hs hs hm _
  | _ => exact .pure hm

end Component

namespace Equation
variable {e : Equation α} {elements : List (Component α)}

theorem addLeakage_gives (he : e.Fits l) (gmin : α) {x f : List α}
    (hx : l.numNodes - 1 ≤ x.length) (hf : f.length = l.size) :
    Gives (e.addLeakage gmin x f) fun f' => f'.length = l.size := by
  unfold addLeakage
  rw [numNodeRows, he.numNodes_eq]
  refine .foldlM hf fun i hi f hf => ?_
  have hi : i < l.numNodes - 1 := List.mem_range.1 hi
  have hif : i < f.length := hf ▸ hi.trans_le (Nat.le_add_right ..)
  simp only [List.getElem?_eq_getElem (hi.trans_le hx), if_pos hif]
  exact .pure ((List.length_modify ..).trans hf)

/-- An equation with a layout can be evaluated wherever all unknowns have a value. -/
theorem total_toSystem (he : e.Fits l) (hfits : ∀ d ∈ elements, d.Fits l) (gmin : α) :
    (e.toSystem elements gmin).Total l.size where
  guess := by
    have hle : e.numNodeRows ≤ e.size := by
      rw [numNodeRows, he.numNodes_eq, size, he.length_eq]
      exact Nat.le_add_right ..
    show e.guess.length = l.size
    simp only [guess, List.length_append, List.length_map, List.length_range, List.length_range']
    rw [Nat.add_sub_cancel' hle, size, he.length_eq]
  residual x hx := by
    have hlen : l.numNodes - 1 ≤ x.length := hx ▸ Nat.le_add_right ..
    have hdefect : (List.zipWith (· - ·) (e.admittances.mulVec x) e.inputs).length = l.size := by
      simp [Matrix.mulVec, Matrix.rows, he.size_eq, he.length_eq]
    exact (addLeakage_gives he gmin hlen hdefect).bind fun f hf =>
      .foldlM hf fun d hd f hf => (hfits d hd).addCurrents_gives hlen hf
  jacobian x hx := by
    have hlen : l.numNodes - 1 ≤ x.length := hx ▸ Nat.le_add_right ..
    refine Gives.bind (P := fun m : Matrix α => m.size = l.size)
      (.foldlM he.size_eq fun i hi m hm => ?_) fun m hm =>
        .foldlM hm fun d hd m hm => (hfits d hd).addSlopes_gives hlen hm
    rw [numNodeRows, he.numNodes_eq] at hi
    have hi : i < l.size := (List.mem_range.1 hi).trans_le (Nat.le_add_right ..)
    exact Matrix.add_gives hm hi hi gmin

end Equation

/-! ## Deriving the state -/

namespace Circuit
variable {c : Circuit α} {cs : List (Component α)}

end Circuit

namespace Node

/-- The node of the last word. -/
def last : Node := ⟨0xffffffffffffffff⟩

theorem countTo_le (n : Node) : n.countTo ≤ last.number.toNat := by
  have := (n.number + 1).toNat_lt
  have : last.number.toNat = 2 ^ 64 - 1 := rfl
  unfold countTo
  omega

theorem lt_countTo {n : Node} (h : n ≠ last) : n.number.toNat < n.countTo := by
  have hlt := n.number.toNat_lt
  have hne : n.number.toNat ≠ 2 ^ 64 - 1 := fun heq =>
    h (congrArg Node.mk (UInt64.toNat_inj.1 (heq.trans rfl)))
  rw [countTo, UInt64.toNat_add, UInt64.toNat_one]
  omega

end Node

namespace Circuit
variable {c : Circuit α} {cs : List (Component α)}

omit [Scalar α]

/-- The count of nodes is above every node, unless one of them is the last. -/
theorem lt_countNodes_iff :
    (∀ n ∈ cs.flatMap Component.nodes, n.number.toNat < countNodes cs) ↔
      Node.last ∉ cs.flatMap Component.nodes := by
  unfold countNodes
  cases hmax : ((cs.flatMap Component.nodes).map Node.countTo).max? with
  | none =>
    rw [List.max?_eq_none_iff, List.map_eq_nil_iff] at hmax
    simp [hmax]
  | some count =>
    obtain ⟨hmem, hle⟩ := List.max?_eq_some_iff.1 hmax
    rw [Option.getD_some]
    constructor
    · intro hlt hlast
      obtain ⟨n, -, rfl⟩ := List.mem_map.1 hmem
      exact Nat.not_lt_of_le n.countTo_le (hlt _ hlast)
    · intro hlast n hn
      have hne : n ≠ Node.last := fun heq => hlast (heq ▸ hn)
      exact (Node.lt_countTo hne).trans_le (hle _ (List.mem_map_of_mem hn))

theorem nodes_numberSources (next : Nat) (cs : List (Component α)) :
    (numberSources next cs).flatMap Component.nodes = cs.flatMap Component.nodes := by
  have hnodes : ∀ (d : Component α) b,
      Component.nodes { d with device := d.device.assignBranch b } = d.nodes := by
    rintro ⟨id, name, device⟩ b
    cases device <;> rfl
  rw [List.flatMap_def, map_numberSources hnodes, List.flatMap_def]

theorem countNodes_congr {cs cs' : List (Component α)}
    (h : cs.flatMap Component.nodes = cs'.flatMap Component.nodes) :
    countNodes cs = countNodes cs' := by
  rw [countNodes, h, countNodes]

theorem nodes_of_ofComponents (h : ofComponents cs = .ok c) :
    c.numNodes = countNodes c.components ∧
      (c.components.flatMap Component.nodes).Perm (cs.flatMap Component.nodes) := by
  obtain ⟨placed, hplaced, rfl⟩ := ofComponents_eq_ok h
  have hnodes := nodes_numberSources 0 placed
  exact ⟨(countNodes_congr hnodes).symm,
    hnodes ▸ (arrange_inOrder hplaced).2.flatMap_right Component.nodes⟩

theorem nodesInRange_iff (h : ofComponents cs = .ok c) :
    c.NodesInRange ↔ Node.last ∉ cs.flatMap Component.nodes := by
  obtain ⟨hcount, hperm⟩ := nodes_of_ofComponents h
  rw [NodesInRange, hcount, lt_countNodes_iff, hperm.mem_iff]

/-- A circuit without components has ground only. -/
theorem numNodes_lt_of_isEmpty (h : ofComponents cs = .ok c) (hempty : c.isEmpty) :
    c.numNodes < minNodes := by
  obtain ⟨hcount, -⟩ := nodes_of_ofComponents h
  rw [hcount, List.isEmpty_iff.1 hempty]
  exact Nat.one_lt_two

/-! ## Validation and the static equation -/

end Circuit

namespace Circuit
variable {c : Circuit α} {cs : List (Component α)}

end Circuit
end Nodal
