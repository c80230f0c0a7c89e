import Nodal.Proofs.Scripts

/-! # Stamps in any order

A stamp adds to cells and inputs and claims a branch. In exact arithmetic these changes commute: the
values add up the same, and whether there is a row left for a source depends on how many there are.
So stamps that can be carried out in one order can be carried out in every order, and they write the
same equation. -/

namespace Nodal
variable {α β γ δ : Type}

/-! ## Stampings that commute -/

namespace Stamping

/-- One after the other, both succeed in one order when they do in the other, with the same results
and the same equation in the end. -/
def Commutes (m : Stamping α β) (m' : Stamping α γ) : Prop :=
  ∀ e b c e', (∃ e₁, m e = .ok b e₁ ∧ m' e₁ = .ok c e') ↔
    ∃ e₁, m' e = .ok c e₁ ∧ m e₁ = .ok b e'

namespace Commutes
variable {m : Stamping α β} {m' : Stamping α γ}

theorem symm (h : Commutes m m') : Commutes m' m := fun e c b e' => (h e b c e').symm

theorem pure (b : β) (m' : Stamping α γ) : Commutes (Pure.pure b) m' := by
  intro e b' c e'
  constructor
  · rintro ⟨e₁, hb, hm'⟩
    cases hb
    exact ⟨e', hm', rfl⟩
  · rintro ⟨e₁, hm', hb⟩
    cases hb
    exact ⟨e, rfl, hm'⟩

/-- What never succeeds commutes with everything. -/
theorem throw (halt : Halt α) (m' : Stamping α γ) :
    Commutes (throw halt : Stamping α β) m' := by
  intro e b c e'
  refine iff_of_false ?_ ?_
  · rintro ⟨e₁, hb, -⟩
    cases hb
  · rintro ⟨e₁, -, hb⟩
    cases hb

theorem bind {f : β → Stamping α δ} (hm : Commutes m m') (hf : ∀ b, Commutes (f b) m') :
    Commutes (m >>= f) m' := by
  intro e d c e'
  simp only [run_bind_eq_ok]
  constructor
  · rintro ⟨e₂, ⟨b, e₁, h₁, h₂⟩, h'⟩
    obtain ⟨e₃, h₃, h₂⟩ := (hf b e₁ d c e').1 ⟨e₂, h₂, h'⟩
    obtain ⟨e₄, h₄, h₁⟩ := (hm e b c e₃).1 ⟨e₁, h₁, h₃⟩
    exact ⟨e₄, h₄, b, e₃, h₁, h₂⟩
  · rintro ⟨e₄, h₄, b, e₃, h₁, h₂⟩
    obtain ⟨e₁, h₁, h₃⟩ := (hm e b c e₃).2 ⟨e₄, h₄, h₁⟩
    obtain ⟨e₂, h₂, h'⟩ := (hf b e₁ d c e').2 ⟨e₃, h₃, h₂⟩
    exact ⟨e₂, ⟨b, e₁, h₁, h₂⟩, h'⟩

end Commutes

/-- The stamping succeeds where `guard` holds, with this result and this change of the equation. -/
def Does (m : Stamping α β) (guard : Equation α → Prop) (result : Equation α → β)
    (change : Equation α → Equation α) : Prop :=
  ∀ e b e', m e = .ok b e' ↔ guard e ∧ b = result e ∧ e' = change e

/-- Changes that commute and leave each other's guards and results alone. -/
theorem Does.commutes {m : Stamping α β} {m' : Stamping α γ} {guard guard' : Equation α → Prop}
    {result : Equation α → β} {result' : Equation α → γ} {change change' : Equation α → Equation α}
    (h : Does m guard result change) (h' : Does m' guard' result' change')
    (hguard : ∀ e, guard e ∧ guard' (change e) ↔ guard' e ∧ guard (change' e))
    (hresult : ∀ e, result (change' e) = result e) (hresult' : ∀ e, result' (change e) = result' e)
    (hchange : ∀ e, change' (change e) = change (change' e)) : Commutes m m' := by
  intro e b c e'
  have hleft : (∃ e₁, m e = .ok b e₁ ∧ m' e₁ = .ok c e') ↔
      (guard e ∧ guard' (change e)) ∧ b = result e ∧ c = result' e ∧ e' = change' (change e) := by
    simp only [h e, h' _ c e']
    constructor
    · rintro ⟨e₁, ⟨hg, hb, rfl⟩, hg', hc, he⟩
      exact ⟨⟨hg, hg'⟩, hb, hc.trans (hresult' e), he⟩
    · rintro ⟨⟨hg, hg'⟩, hb, hc, he⟩
      exact ⟨_, ⟨hg, hb, rfl⟩, hg', hc.trans (hresult' e).symm, he⟩
  have hright : (∃ e₁, m' e = .ok c e₁ ∧ m e₁ = .ok b e') ↔
      (guard' e ∧ guard (change' e)) ∧ b = result e ∧ c = result' e ∧ e' = change (change' e) := by
    simp only [h' e, h _ b e']
    constructor
    · rintro ⟨e₁, ⟨hg', hc, rfl⟩, hg, hb, he⟩
      exact ⟨⟨hg', hg⟩, hb.trans (hresult e), hc, he⟩
    · rintro ⟨⟨hg', hg⟩, hb, hc, he⟩
      exact ⟨_, ⟨hg', hc, rfl⟩, hg, hb.trans (hresult e).symm, he⟩
  rw [hleft, hright, hguard, hchange]

end Stamping

/-! ## Adding and claiming -/

/-- Adds to the cell at a position of the array. -/
def Matrix.shift [Scalar α] (m : Matrix α) (k : Nat) (v : α) : Matrix α :=
  { m with
    cells := m.cells.modify k (· + v)
    cells_size := by rw [Array.size_modify, m.cells_size] }

namespace Equation
open Stamping

section Scalar
variable [Scalar α]

theorem addCell_does (r c : Nat) (v : α) :
    Does (addCell (some r) (some c) v)
      (fun e => e.admittances.index r c < e.admittances.cells.size) (fun _ => ())
      (fun e => { e with admittances := e.admittances.shift (e.admittances.index r c) v }) := by
  intro e b e'
  simp only [addCell, Matrix.add, Matrix.modify]
  split
  · rename_i m hm
    split at hm
    · rename_i hlt
      cases hm
      constructor
      · intro h
        cases h
        exact ⟨hlt, trivial, rfl⟩
      · rintro ⟨-, -, rfl⟩
        rfl
    · cases hm
  · rename_i halt hm
    split at hm
    · cases hm
    · rename_i hlt
      refine iff_of_false ?_ fun h => hlt h.1
      rintro ⟨⟩

theorem addInput_does (r : Nat) (v : α) :
    Does (addInput (some r) v) (fun e => r < e.inputs.length) (fun _ => ())
      (fun e => { e with inputs := e.inputs.modify r (· + v) }) := by
  intro e b e'
  simp only [addInput]
  split
  · rename_i hlt
    constructor
    · intro h
      cases h
      exact ⟨hlt, trivial, rfl⟩
    · rintro ⟨-, -, rfl⟩
      rfl
  · rename_i hlt
    refine iff_of_false ?_ fun h => hlt h.1
    rintro ⟨⟩

omit [Scalar α] in
theorem claimBranch_does (k : Branch) :
    Does (claimBranch k : Stamping α Nat)
      (fun e => e.numStamped < e.numSources ∧ k.number < e.numSources) (fun e => e.branchRow k)
      (fun e => { e with numStamped := e.numStamped + 1 }) := by
  intro e b e'
  simp only [claimBranch]
  split
  · refine iff_of_false ?_ ?_
    · rintro ⟨⟩
    · rintro ⟨⟨h₁, h₂⟩, -⟩
      omega
  · constructor
    · intro h
      cases h
      refine ⟨?_, rfl, rfl⟩
      omega
    · rintro ⟨-, rfl, rfl⟩
      rfl

end Scalar

variable [ExactScalar α]

theorem shift_shift (m : Matrix α) (j k : Nat) (v w : α) :
    (m.shift j v).shift k w = (m.shift k w).shift j v := by
  have hcells : (m.cells.modify j (· + v)).modify k (· + w) =
      (m.cells.modify k (· + w)).modify j (· + v) := by
    refine Array.ext_getElem? fun i => ?_
    simp only [Array.getElem?_modify]
    split <;> split <;> simp [Option.map_map, Function.comp_def, add_right_comm]
  simp only [Matrix.shift, hcells]

theorem modify_modify (xs : List α) (j k : Nat) (v w : α) :
    (xs.modify j (· + v)).modify k (· + w) = (xs.modify k (· + w)).modify j (· + v) := by
  refine List.ext_getElem? fun i => ?_
  simp only [List.getElem?_modify]
  split <;> split <;> simp [Option.map_map, Function.comp_def, add_right_comm]

section Pairs
variable (row col row' col' : Option Nat) (v w : α) (k k' : Branch)

theorem addCell_addCell : Commutes (addCell row col v) (addCell row' col' w) := by
  match row, col, row', col' with
  | some r, some c, some r', some c' =>
    refine (addCell_does r c v).commutes (addCell_does r' c' w) (fun e => ?_) (fun _ => rfl)
      (fun _ => rfl) fun e => ?_
    · simp only [Matrix.shift, Matrix.index, Array.size_modify, and_comm]
    · exact congrArg (fun m => { e with admittances := m }) (shift_shift ..)
  | none, _, _, _ => exact .pure () _
  | some _, none, _, _ => exact .pure () _
  | some _, some _, none, _ => exact (Commutes.pure () _).symm
  | some _, some _, some _, none => exact (Commutes.pure () _).symm

theorem addCell_addInput : Commutes (addCell row col v) (addInput row' w) := by
  match row, col, row' with
  | some r, some c, some r' =>
    exact (addCell_does r c v).commutes (addInput_does r' w) (fun _ => and_comm) (fun _ => rfl)
      (fun _ => rfl) fun _ => rfl
  | none, _, _ => exact .pure () _
  | some _, none, _ => exact .pure () _
  | some _, some _, none => exact (Commutes.pure () _).symm

theorem addCell_claimBranch : Commutes (addCell row col v) (claimBranch k) := by
  match row, col with
  | some r, some c =>
    exact (addCell_does r c v).commutes (claimBranch_does k) (fun _ => and_comm) (fun _ => rfl)
      (fun _ => rfl) fun _ => rfl
  | none, _ => exact .pure () _
  | some _, none => exact .pure () _

theorem addInput_addInput : Commutes (addInput row v) (addInput row' w) := by
  match row, row' with
  | some r, some r' =>
    refine (addInput_does r v).commutes (addInput_does r' w) (fun e => ?_) (fun _ => rfl)
      (fun _ => rfl) fun e => ?_
    · simp only [List.length_modify, and_comm]
    · exact congrArg (fun xs => { e with inputs := xs }) (modify_modify ..)
  | none, _ => exact .pure () _
  | some _, none => exact (Commutes.pure () _).symm

theorem addInput_claimBranch : Commutes (addInput row v) (claimBranch k) := by
  match row with
  | some r =>
    exact (addInput_does r v).commutes (claimBranch_does k) (fun _ => and_comm) (fun _ => rfl)
      (fun _ => rfl) fun _ => rfl
  | none => exact .pure () _

omit [ExactScalar α] in
/-- Two sources both get a row in one order when they do in the other, since there must be two rows
left either way. -/
theorem claimBranch_claimBranch :
    Commutes (claimBranch k : Stamping α Nat) (claimBranch k' : Stamping α Nat) := by
  refine (claimBranch_does k).commutes (claimBranch_does k') (fun e => ?_) (fun _ => rfl)
    (fun _ => rfl) fun _ => rfl
  constructor
  · rintro ⟨⟨-, hk⟩, hroom, hk'⟩
    exact ⟨⟨Nat.lt_of_succ_lt hroom, hk'⟩, hroom, hk⟩
  · rintro ⟨⟨-, hk'⟩, hroom, hk⟩
    exact ⟨⟨Nat.lt_of_succ_lt hroom, hk⟩, hroom, hk'⟩

end Pairs

end Equation

/-! ## Stamps -/

namespace Stamping
open Equation
variable [ExactScalar α]

/-- Commutes with all that stamps are made of. -/
structure Additive (m : Stamping α β) : Prop where
  cell : ∀ row col v, Commutes (addCell row col v) m
  input : ∀ row v, Commutes (addInput row v) m
  claim : ∀ k, Commutes (claimBranch k : Stamping α Nat) m

theorem addCell_additive (row col : Option Nat) (v : α) : Additive (addCell row col v) :=
  ⟨fun row' col' w => addCell_addCell row' col' row col w v,
    fun row' w => (addCell_addInput row col row' v w).symm,
    fun k => (addCell_claimBranch row col v k).symm⟩

theorem addInput_additive (row : Option Nat) (v : α) : Additive (addInput row v) :=
  ⟨fun row' col' w => addCell_addInput row' col' row w v,
    fun row' w => addInput_addInput row' row w v,
    fun k => (addInput_claimBranch row v k).symm⟩

theorem claimBranch_additive (k : Branch) : Additive (claimBranch k : Stamping α Nat) :=
  ⟨fun row col v => addCell_claimBranch row col v k, fun row v => addInput_claimBranch row v k,
    fun k' => claimBranch_claimBranch k' k⟩

namespace Additive
variable {m : Stamping α β} (h : Additive m)
include h

theorem conductance (g : α) (a b : Node) : Commutes (stampConductance g a b) m :=
  .bind (h.cell _ _ _) fun _ => .bind (h.cell _ _ _) fun _ => .bind (h.cell _ _ _) fun _ =>
    h.cell _ _ _

theorem coupling (row : Nat) (a b : Node) : Commutes (stampCoupling row a b) m :=
  .bind (h.cell _ _ _) fun _ => .bind (h.cell _ _ _) fun _ => .bind (h.cell _ _ _) fun _ =>
    h.cell _ _ _

theorem voltageSource (v : α) (a b : Node) (k : Branch) :
    Commutes (stampVoltageSource v a b k) m :=
  (h.claim k).bind fun row => (h.coupling row a b).bind fun _ =>
    .bind (h.input _ _) fun _ => .pure row m

theorem currentSource (i : α) (a b : Node) : Commutes (stampCurrentSource i a b) m :=
  .bind (h.input _ _) fun _ => h.input _ _

theorem controlledSource (gain : α) (outA outB inA inB : Node) (k : Branch) :
    Commutes (stampControlledSource gain outA outB inA inB k) m :=
  (h.claim k).bind fun row => (h.coupling row outB outA).bind fun _ =>
    .bind (h.cell _ _ _) fun _ => .bind (h.cell _ _ _) fun _ => .pure row m

/-- A stamp is made of additions and claims, and of a check that does not see the equation. -/
theorem apply (s : Stamp α) : Commutes s.apply m := by
  cases s with
  | conductance g a b => exact (h.conductance g a b).bind fun _ => .pure none m
  | resistor r a b =>
    refine Commutes.bind ?_ fun _ => .pure none m
    unfold stampResistor
    split
    · exact h.conductance (1 / r) a b
    · exact .throw _ m
  | voltageSource v a b k => exact (h.voltageSource v a b k).bind fun row => .pure (some row) m
  | currentSource i a b => exact (h.currentSource i a b).bind fun _ => .pure none m
  | controlledSource gain outA outB inA inB k =>
    exact (h.controlledSource gain outA outB inA inB k).bind fun row => .pure (some row) m

end Additive

theorem apply_additive (s : Stamp α) : Additive s.apply :=
  ⟨fun row col v => ((addCell_additive row col v).apply s).symm,
    fun row v => ((addInput_additive row v).apply s).symm,
    fun k => ((claimBranch_additive k).apply s).symm⟩

theorem apply_apply (s s' : Stamp α) : Commutes s.apply s'.apply := (apply_additive s').apply s

theorem carryOut_cons_eq_ok {s : Stamp α} {stamps : List (Stamp α)} {e e' : Equation α} :
    carryOut (s :: stamps) e = .ok () e' ↔
      ∃ row e₁, s.apply e = .ok row e₁ ∧ carryOut stamps e₁ = .ok () e' := run_bind_eq_ok

/-- Stamps that can be carried out in one order can be carried out in every order, and write the
same equation. -/
theorem stamps_commute {stamps stamps' : List (Stamp α)} (h : stamps.Perm stamps')
    (e e' : Equation α) : carryOut stamps e = .ok () e' ↔ carryOut stamps' e = .ok () e' := by
  induction h generalizing e with
  | nil => rfl
  | cons s _ ih => simp only [carryOut_cons_eq_ok, ih]
  | swap s s' stamps =>
    simp only [carryOut_cons_eq_ok]
    constructor
    · rintro ⟨row', e₁, h₁, row, e₂, h₂, hrest⟩
      obtain ⟨e₃, h₃, h₄⟩ := (apply_apply s' s e row' row e₂).1 ⟨e₁, h₁, h₂⟩
      exact ⟨row, e₃, h₃, row', e₂, h₄, hrest⟩
    · rintro ⟨row, e₁, h₁, row', e₂, h₂, hrest⟩
      obtain ⟨e₃, h₃, h₄⟩ := (apply_apply s s' e row row' e₂).1 ⟨e₁, h₁, h₂⟩
      exact ⟨row', e₃, h₃, row, e₂, h₄, hrest⟩
  | trans _ _ ih ih' => exact (ih e).trans (ih' e)

/-- One stamp of each kind. Those between the first two nodes share their cells, and the controlled
source senses its own output. -/
def overlapping : List (Stamp ℚ) :=
  [.conductance 3 ⟨1⟩ ⟨2⟩, .voltageSource 5 .ground ⟨1⟩ ⟨1⟩, .resistor 2 ⟨2⟩ ⟨1⟩,
    .controlledSource 10 ⟨2⟩ .ground ⟨2⟩ ⟨1⟩ ⟨0⟩, .currentSource 7 ⟨2⟩ ⟨2⟩,
    .conductance 1 ⟨1⟩ ⟨1⟩]

theorem stamps_commute_overlapping :
    ∃ e e' : Equation ℚ, Equation.blank 3 2 = .ok e ∧ carryOut overlapping e = .ok () e' ∧
      carryOut overlapping.reverse e = .ok () e' ∧
      e'.numStamped = 2 ∧ e'.inputs = [0, 0, 0, 5] ∧ e'.admittances.cells.toList =
        [7 / 2, -7 / 2, 0, -1, -7 / 2, 7 / 2, -1, 0, 10, -9, 0, 0, 1, 0, 0, 0] := by
  obtain ⟨⟨⟩, hout⟩ := exists_of_succeeds
    (r := carryOut overlapping ⟨.zeros 4, [0, 0, 0, 0], 3, 2, 0⟩) (by decide +kernel)
  refine ⟨_, _, rfl, hout, ?_, by decide +kernel⟩
  exact (stamps_commute (List.reverse_perm overlapping).symm _ _).1 hout

end Stamping
end Nodal
