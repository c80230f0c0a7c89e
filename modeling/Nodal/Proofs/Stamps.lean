import Nodal.Proofs.Entries

/-! # What a stamp adds

The defect of a row is how much its two sides differ at a trial solution. A stamp adds to the defect
of every row an amount that depends on the trial solution and not on what was stamped before
(`Stamping.Adds`), so a sequence of stamps adds the sum. For each stamp the amount is the current
that it draws from the row's node, and in the row of a source the voltage that the source misses. -/

namespace Nodal

/-- The size of an equation that can be solved. -/
structure Layout where
  /-- Nodes with ground. -/
  numNodes : Nat
  /-- Rows for voltage sources. -/
  numSources : Nat
  two_le : minNodes ≤ numNodes
  size_lt : numNodes - 1 + numSources < Equation.sizeLimit

namespace Layout

/-- Number of unknowns. -/
def size (l : Layout) : Nat := l.numNodes - 1 + l.numSources

/-- The row of a voltage source. -/
def branchRow (l : Layout) (b : Branch) : Nat := l.numNodes - 1 + b.number

theorem numNodes_lt (l : Layout) : l.numNodes ≤ Equation.sizeLimit := by
  have := l.size_lt
  omega

theorem branchRow_lt (l : Layout) {b : Branch} (hb : b.number < l.numSources) :
    l.branchRow b < l.size :=
  Nat.add_lt_add_left hb _

/-- Positions of branch currents do not wrap around. -/
theorem position_current (l : Layout) {b : Branch} (hb : b.number < l.numSources) :
    (Unknown.current b).position l.numNodes = l.branchRow b := by
  have h1 := l.two_le
  have h2 := l.size_lt
  have : Equation.sizeLimit < 2 ^ 64 := by decide
  simp only [minNodes] at h1
  simp only [Unknown.position, branchRow, UInt64.toNat_add, UInt64.toNat_ofNat',
    UInt64.toNat_sub_of_le _ _ (show (1 : UInt64) ≤ UInt64.ofNat l.numNodes by
      rw [UInt64.le_iff_toNat_le, UInt64.toNat_ofNat']; simp; omega)]
  simp
  omega

end Layout

theorem Node.eq_ground {n : Node} (h : n.number.toNat = 0) : n = .ground := by
  obtain ⟨k⟩ := n
  exact congrArg Node.mk (UInt64.toNat_inj.1 h)

theorem Node.toNat_ne_zero {n : Node} (h : ¬ n.isGround) : n.number.toNat ≠ 0 := by
  intro h0
  have : n.number = 0 := UInt64.toNat_inj.1 h0
  exact h (by rw [isGround, this]; rfl)

theorem Node.row?_lt {n : Node} {k i : Nat} (hn : n.number.toNat < k) (h : n.row? = some i) :
    i < k - 1 := by
  rw [row?] at h
  split at h
  · cases h
  · rename_i hg
    cases h
    have := Node.toNat_ne_zero hg
    omega

theorem Node.row?_eq_iff {m n : Node} {i : Nat} (h : n.row? = some i) :
    m.row? = some i ↔ m = n := by
  refine ⟨fun hm => ?_, fun hm => hm ▸ h⟩
  rw [row?] at h hm
  split at h
  · cases h
  split at hm
  · cases hm
  rename_i hn hm'
  have hn := Node.toNat_ne_zero hn
  have hm' := Node.toNat_ne_zero hm'
  obtain ⟨m⟩ := m
  obtain ⟨n⟩ := n
  simp only [Option.some.injEq] at h hm hn hm'
  rw [Node.mk.injEq, ← UInt64.toNat_inj]
  omega

section Rows
variable {α : Type} [Scalar α]

/-- An amount in one row and zero in the others. -/
def atRow (row : Option Nat) (v : α) (i : Nat) : α := if row = some i then v else 0

/-- What a current from `a` to `b` adds to the currents that leave the node of row `i`. -/
def pathRow (a b : Node) (current : α) (i : Nat) : α :=
  atRow a.row? current i - atRow b.row? current i

/-- The unknown at a position, zero without one. -/
def unknownAt (x : List α) : Option Nat → α
  | some j => x.getD j 0
  | none => 0

@[simp] theorem unknownAt_some (x : List α) (j : Nat) : unknownAt x (some j) = x.getD j 0 := rfl

/-- Voltage of a node in a solution without ground. -/
def voltageIn (x : List α) (n : Node) : α := unknownAt x n.row?

end Rows

variable {α β γ : Type}

/-- An equation of this layout. -/
structure Equation.Fits (l : Layout) (e : Equation α) : Prop where
  numNodes_eq : e.numNodes = l.numNodes
  numSources_eq : e.numSources = l.numSources
  size_eq : e.admittances.size = l.size
  length_eq : e.inputs.length = l.size

variable [ExactScalar α]

/-- How much the two sides of row `i` differ at `x`. -/
def Equation.defect (e : Equation α) (x : List α) (i : Nat) : α :=
  e.admittances.rowSum x i - e.inputs.getD i 0

/-- A success keeps the layout, returns what `P` holds of, and adds `w` to the defects. -/
def Stamping.Adds (l : Layout) (m : Stamping α β) (w : List α → Nat → α) (P : β → Prop) : Prop :=
  ∀ e b e', e.Fits l → m e = .ok b e' →
    e'.Fits l ∧ P b ∧ ∀ x i, e'.defect x i = e.defect x i + w x i

namespace Stamping.Adds
variable {l : Layout} {w w' : List α → Nat → α} {P : β → Prop} {Q : γ → Prop} {m : Stamping α β}

theorem congr (h : Adds l m w P) (hw : ∀ x i, w x i = w' x i) : Adds l m w' P := by
  intro e b e' he hm
  obtain ⟨h1, h2, h3⟩ := h e b e' he hm
  exact ⟨h1, h2, fun x i => by rw [h3, hw]⟩

theorem mono {P' : β → Prop} (h : Adds l m w P) (hP : ∀ b, P b → P' b) : Adds l m w P' := by
  intro e b e' he hm
  obtain ⟨h1, h2, h3⟩ := h e b e' he hm
  exact ⟨h1, hP b h2, h3⟩

theorem pure {b : β} (hb : P b) : Adds l (pure b : Stamping α β) (fun _ _ => 0) P := by
  intro e b' e' he hm
  cases hm
  exact ⟨he, hb, fun x i => (add_zero _).symm⟩

theorem throw (h : Halt α) : Adds l (throw h : Stamping α β) w P := by
  intro e b e' _ hm
  cases hm

theorem bind {f : β → Stamping α γ} (hm : Adds l m w P) (hf : ∀ b, P b → Adds l (f b) w' Q) :
    Adds l (m >>= f) (fun x i => w x i + w' x i) Q := by
  intro e c e' he h
  obtain ⟨b, e₁, h₁, h'⟩ := run_bind_eq_ok.1 h
  obtain ⟨he₁, hb, hd₁⟩ := hm e b e₁ he h₁
  obtain ⟨he', hc, hd'⟩ := hf b hb e₁ c e' he₁ h'
  exact ⟨he', hc, fun x i => by rw [hd', hd₁, add_assoc]⟩

theorem forM {ι : Type} {f : ι → Stamping α PUnit} {v : ι → List α → Nat → α} {P : ι → Prop}
    {cs : List ι} (h : ∀ c ∈ cs, Adds l (f c) (v c) fun _ => P c) :
    Adds l (cs.forM f) (fun x i => (cs.map fun c => v c x i).sum) fun _ => ∀ c ∈ cs, P c := by
  induction cs with
  | nil => exact pure (by simp)
  | cons c cs ih =>
    rw [List.forM_eq_forM, List.forM_cons]
    have ih := ih fun c hc => h c (List.mem_cons_of_mem _ hc)
    refine (bind (h c List.mem_cons_self) fun _ hP => ih.mono fun _ hcs => ?_).congr fun x i => ?_
    · exact List.forall_mem_cons.2 ⟨hP, hcs⟩
    · rw [List.map_cons, List.sum_cons]

end Stamping.Adds

namespace Equation
open Stamping
variable {l : Layout} {e : Equation α}

theorem addCell_adds {row col : Option Nat} (v : α) (hrow : ∀ r, row = some r → r < l.size)
    (hcol : ∀ c, col = some c → c < l.size) :
    Adds l (addCell row col v) (fun x => atRow row (v * unknownAt x col)) fun _ => True := by
  intro e b e' he h
  match row, col with
  | none, col =>
    cases h
    exact ⟨he, trivial, fun x i => by simp [atRow]⟩
  | some r, none =>
    cases h
    exact ⟨he, trivial, fun x i => by simp [atRow, unknownAt]⟩
  | some r, some c =>
    have hr : r < e.admittances.size := he.size_eq ▸ hrow r rfl
    have hc : c < e.admittances.size := he.size_eq ▸ hcol c rfl
    obtain ⟨m, hm, hs, hentry⟩ := e.admittances.add_ok v hr hc (he.size_eq ▸ l.size_lt)
    simp only [addCell, hm] at h
    cases h
    refine ⟨⟨he.1, he.2, hs.trans he.3, he.4⟩, trivial, fun x i => ?_⟩
    simp only [defect, Matrix.rowSum_of_entry hc hs hentry, atRow, unknownAt, Option.some.injEq,
      eq_comm (a := r)]
    ring

theorem addInput_adds {row : Option Nat} (v : α) :
    Adds l (addInput row v) (fun _ i => -atRow row v i) fun _ => True := by
  intro e b e' he h
  match row with
  | none =>
    cases h
    exact ⟨he, trivial, fun x i => by simp [atRow]⟩
  | some r =>
    simp only [addInput] at h
    split at h
    · rename_i hr
      cases h
      refine ⟨⟨he.1, he.2, he.3, by rw [List.length_modify, he.4]⟩, trivial, fun x i => ?_⟩
      simp only [defect, atRow, List.getD_eq_getElem?_getD, List.getElem?_modify, Option.some.injEq]
      by_cases hi : r = i
      · subst hi
        simp [List.getElem?_eq_getElem hr]
        ring
      · simp [hi]
    · cases h

theorem row_lt {n : Node} (hn : n.number.toNat < l.numNodes) (r : Nat) (h : n.row? = some r) :
    r < l.size :=
  (n.row?_lt hn h).trans_le (Nat.le_add_right ..)

variable {a b : Node}

theorem stampConductance_adds (g : α) (ha : a.number.toNat < l.numNodes)
    (hb : b.number.toNat < l.numNodes) :
    Adds l (stampConductance g a b)
      (fun x => pathRow a b (g * (voltageIn x a - voltageIn x b))) fun _ => True := by
  unfold stampConductance
  refine (((addCell_adds g (row_lt ha) (row_lt ha)).bind fun _ _ =>
    (addCell_adds g (row_lt hb) (row_lt hb)).bind fun _ _ =>
      (addCell_adds (-g) (row_lt ha) (row_lt hb)).bind fun _ _ =>
        addCell_adds (-g) (row_lt hb) (row_lt ha))).congr fun x i => ?_
  simp only [pathRow, atRow, voltageIn]
  split <;> split <;> ring

theorem stampResistor_adds (r : α) (ha : a.number.toNat < l.numNodes)
    (hb : b.number.toNat < l.numNodes) :
    Adds l (stampResistor r a b)
      (fun x => pathRow a b ((voltageIn x a - voltageIn x b) / r)) fun _ => 0 < r := by
  unfold stampResistor
  split
  · rename_i hr
    refine ((stampConductance_adds (1 / r) ha hb).congr fun x i => ?_).mono
      fun _ _ => by simpa using hr
    rw [one_div_mul_eq_div]
  · exact .throw _

theorem stampCurrentSource_adds (i : α) :
    Adds l (stampCurrentSource i a b) (fun _ => pathRow a b i) fun _ => True := by
  unfold stampCurrentSource
  refine ((addInput_adds (-i)).bind fun _ _ => addInput_adds i).congr fun x j => ?_
  simp only [pathRow, atRow]
  split <;> split <;> ring

theorem claimBranch_adds {k : Branch} (hk : k.number < l.numSources) :
    Adds l (claimBranch k : Stamping α Nat) (fun _ _ => 0) fun row => row = l.branchRow k := by
  intro e row e' he h
  simp only [claimBranch] at h
  split at h
  · cases h
  · cases h
    refine ⟨⟨he.1, he.2, he.3, he.4⟩, ?_, fun x i => (add_zero _).symm⟩
    rw [branchRow, he.numNodes_eq, l.position_current hk]

theorem stampCoupling_adds {row : Nat} (hrow : row < l.size) (ha : a.number.toNat < l.numNodes)
    (hb : b.number.toNat < l.numNodes) :
    Adds l (stampCoupling row a b : Stamping α Unit)
      (fun x i => pathRow a b (x.getD row 0) i +
        atRow (some row) (voltageIn x b - voltageIn x a) i) fun _ => True := by
  have hr : ∀ r, some row = some r → r < l.size := fun r h => Option.some.inj h ▸ hrow
  unfold stampCoupling
  refine ((addCell_adds (-1) hr (row_lt ha)).bind fun _ _ =>
    (addCell_adds 1 hr (row_lt hb)).bind fun _ _ =>
      (addCell_adds 1 (row_lt ha) hr).bind fun _ _ =>
        addCell_adds (-1) (row_lt hb) hr).congr fun x i => ?_
  simp only [pathRow, atRow, voltageIn, unknownAt_some]
  split <;> split <;> split <;> ring

theorem stampVoltageSource_adds (v : α) {k : Branch} (hk : k.number < l.numSources)
    (ha : a.number.toNat < l.numNodes) (hb : b.number.toNat < l.numNodes) :
    Adds l (stampVoltageSource v a b k)
      (fun x i => pathRow a b (x.getD (l.branchRow k) 0) i +
        atRow (some (l.branchRow k)) (voltageIn x b - voltageIn x a - v) i) fun _ => True := by
  unfold stampVoltageSource
  refine Adds.congr ((claimBranch_adds hk).bind fun row hrow => ?_) fun x i => zero_add _
  subst hrow
  refine ((stampCoupling_adds (l.branchRow_lt hk) ha hb).bind fun _ _ =>
    (addInput_adds v).bind fun _ _ => .pure trivial).congr fun x i => ?_
  simp only [atRow]
  split <;> ring

theorem stampControlledSource_adds (gain : α) {outA outB inA inB : Node} {k : Branch}
    (hk : k.number < l.numSources) (hoa : outA.number.toNat < l.numNodes)
    (hob : outB.number.toNat < l.numNodes) (hia : inA.number.toNat < l.numNodes)
    (hib : inB.number.toNat < l.numNodes) :
    Adds l (stampControlledSource gain outA outB inA inB k)
      (fun x i => pathRow outB outA (x.getD (l.branchRow k) 0) i +
        atRow (some (l.branchRow k)) (voltageIn x outA - voltageIn x outB -
          gain * (voltageIn x inA - voltageIn x inB)) i) fun _ => True := by
  have hr : ∀ r, some (l.branchRow k) = some r → r < l.size := fun r h =>
    Option.some.inj h ▸ l.branchRow_lt hk
  unfold stampControlledSource
  refine Adds.congr ((claimBranch_adds hk).bind fun row hrow => ?_) fun x i => zero_add _
  subst hrow
  refine ((stampCoupling_adds (l.branchRow_lt hk) hob hoa).bind fun _ _ =>
    (addCell_adds (-gain) hr (row_lt hia)).bind fun _ _ =>
      (addCell_adds gain hr (row_lt hib)).bind fun _ _ => .pure trivial).congr fun x i => ?_
  simp only [atRow, voltageIn]
  split <;> ring

theorem fits_blank {numNodes numSources : Nat} (h : blank numNodes numSources = .ok e) :
    ∃ l : Layout, l.numNodes = numNodes ∧ l.numSources = numSources ∧ e.Fits l ∧
      ∀ x i, e.defect x i = 0 := by
  rw [blank] at h
  split at h
  · cases h
  rename_i htwo
  simp only at h
  split at h
  · cases h
  rename_i hlt
  cases h
  refine ⟨⟨numNodes, numSources, Nat.le_of_not_lt htwo, Nat.lt_of_not_le hlt⟩, rfl, rfl,
    ⟨rfl, rfl, rfl, List.length_replicate⟩, fun x i => ?_⟩
  have hentry : ∀ j, (Matrix.zeros (numNodes - 1 + numSources) : Matrix α).entry i j = 0 := by
    intro j
    simp only [Matrix.entry, Matrix.zeros, Array.getD_eq_getD_getElem?, Array.getElem?_replicate]
    split <;> rfl
  simp only [defect, Matrix.rowSum, hentry, List.getD_eq_getElem?_getD, List.getElem?_replicate]
  split <;> simp

end Equation
end Nodal
