import Nodal.Proofs.Numbering

/-! # Stamps as data

What a component writes into an equation is a check with a list of stamps after it, once for the
static equation and once for each tick. A list of stamps that have a place in the layout does not
fail while there are sources left to claim, and it leaves the row, the column and the input of a
branch alone unless it claims the branch (`Stamping.Claims`). -/

namespace Nodal

/-! ## Stamps -/

namespace Stamp
variable {α : Type}

def nodes : Stamp α → List Node
  | conductance _ a b | resistor _ a b | voltageSource _ a b _ | currentSource _ a b => [a, b]
  | controlledSource _ outA outB inA inB _ => [outA, outB, inA, inB]

/-- The branch that the stamp claims. -/
def branch? : Stamp α → Option Branch
  | voltageSource _ _ _ branch | controlledSource _ _ _ _ _ branch => some branch
  | _ => none

/-- The stamp has a place in the layout, and a resistance can be stamped. -/
structure Fits [Scalar α] (l : Layout) (s : Stamp α) : Prop where
  nodes_lt : ∀ n ∈ s.nodes, n.number.toNat < l.numNodes
  branch_lt : ∀ b, s.branch? = some b → b.number < l.numSources
  positive : ∀ r a b, s = resistor r a b → Scalar.isPositive r

end Stamp

/-- Carries out stamps one after the other. -/
def Stamping.carryOut {α : Type} [Scalar α] : List (Stamp α) → Stamping α Unit
  | [] => pure ()
  | s :: stamps => do
    let _ ← s.apply
    carryOut stamps

/-! ## What a stamping claims -/

variable {α β γ : Type} [Scalar α]

/-- The row, the column and the input of a branch are the same in two equations. -/
structure Equation.SameBranch (l : Layout) (b : Branch) (e e' : Equation α) : Prop where
  row : ∀ j < l.size,
    e'.admittances.entry (l.branchRow b) j = e.admittances.entry (l.branchRow b) j
  column : ∀ i, e'.admittances.entry i (l.branchRow b) = e.admittances.entry i (l.branchRow b)
  input : e'.inputs[l.branchRow b]? = e.inputs[l.branchRow b]?

namespace Equation.SameBranch
variable {l : Layout} {b : Branch} {e e₁ e' : Equation α}

theorem refl (l : Layout) (b : Branch) (e : Equation α) : e.SameBranch l b e :=
  ⟨fun _ _ => rfl, fun _ => rfl, rfl⟩

theorem trans (h : e.SameBranch l b e₁) (h' : e₁.SameBranch l b e') : e.SameBranch l b e' :=
  ⟨fun j hj => (h'.row j hj).trans (h.row j hj), fun i => (h'.column i).trans (h.column i),
    h'.input.trans h.input⟩

end Equation.SameBranch

/-- The stamping claims `n` sources: it succeeds when as many are left. A success keeps the layout,
returns what `P` holds of, and writes in the row, the column and the input of a branch only if `B`
holds of the branch. -/
structure Stamping.Claims (l : Layout) (m : Stamping α β) (n : Nat) (B : Branch → Prop)
    (P : β → Prop) : Prop where
  succeeds : ∀ e, e.Fits l → e.numStamped + n ≤ l.numSources → ∃ b e', m e = .ok b e'
  keeps : ∀ e b e', e.Fits l → m e = .ok b e' →
    e'.Fits l ∧ P b ∧ e'.numStamped = e.numStamped + n ∧
      ∀ k : Branch, k.number < l.numSources → ¬ B k → e.SameBranch l k e'

namespace Stamping.Claims
variable {l : Layout} {m : Stamping α β} {n k : Nat} {B C : Branch → Prop} {P R : β → Prop}
  {Q : γ → Prop}

theorem mono (h : Claims l m n B P) (hB : ∀ k, B k → C k) (hP : ∀ b, P b → R b) :
    Claims l m n C R := by
  refine ⟨h.succeeds, fun e b e' he hm => ?_⟩
  obtain ⟨hfits, hb, hn, hsame⟩ := h.keeps e b e' he hm
  exact ⟨hfits, hP b hb, hn, fun k hk hnot => hsame k hk fun hk' => hnot (hB k hk')⟩

/-- A stamping that leaves the equation as it is claims nothing. -/
theorem idle {b : β} (hm : ∀ e, m e = .ok b e) (hb : P b) : Claims l m 0 B P := by
  refine ⟨fun e _ _ => ⟨b, e, hm e⟩, fun e b' e' he h => ?_⟩
  cases (hm e).symm.trans h
  exact ⟨he, hb, rfl, fun k _ _ => .refl l k e⟩

theorem pure {b : β} (hb : P b) : Claims l (pure b : Stamping α β) 0 B P := idle (fun _ => rfl) hb

theorem bind {f : β → Stamping α γ} (hm : Claims l m n B P)
    (hf : ∀ b, P b → Claims l (f b) k C Q) :
    Claims l (m >>= f) (n + k) (fun k => B k ∨ C k) Q := by
  constructor
  · intro e he hroom
    obtain ⟨b, e₁, h₁⟩ := hm.succeeds e he (by omega)
    obtain ⟨he₁, hb, hn, -⟩ := hm.keeps e b e₁ he h₁
    obtain ⟨c, e', h'⟩ := (hf b hb).succeeds e₁ he₁ (by omega)
    exact ⟨c, e', run_bind_eq_ok.2 ⟨b, e₁, h₁, h'⟩⟩
  · intro e c e' he h
    obtain ⟨b, e₁, h₁, h'⟩ := run_bind_eq_ok.1 h
    obtain ⟨he₁, hb, hn, hsame⟩ := hm.keeps e b e₁ he h₁
    obtain ⟨he', hc, hn', hsame'⟩ := (hf b hb).keeps e₁ c e' he₁ h'
    refine ⟨he', hc, by omega, fun k hk hnot => ?_⟩
    exact (hsame k hk fun h => hnot (.inl h)).trans (hsame' k hk fun h => hnot (.inr h))

/-- What is returned in the end makes no difference to the equation. -/
theorem andReturn {f : β → γ} (h : Claims l m n B P) (hf : ∀ b, P b → Q (f b)) :
    Claims l (do return f (← m)) n B Q :=
  (h.bind fun b hb => pure (B := B) (hf b hb)).mono (fun _ hk => hk.elim id id) fun _ => id

end Stamping.Claims

theorem Layout.branchRow_inj (l : Layout) {b k : Branch} (h : l.branchRow b = l.branchRow k) :
    b = k := by
  obtain ⟨b⟩ := b
  obtain ⟨k⟩ := k
  exact congrArg Branch.mk (Nat.add_left_cancel h)

theorem Node.row?_ne_branchRow {l : Layout} {n : Node} (hn : n.number.toNat < l.numNodes)
    (b : Branch) : n.row? ≠ some (l.branchRow b) := by
  intro h
  have := n.row?_lt hn h
  unfold Layout.branchRow at this
  omega

namespace Equation
open Stamping
variable {l : Layout}

theorem addCell_claims {row col : Option Nat} (v : α) (hrow : ∀ r, row = some r → r < l.size)
    (hcol : ∀ c, col = some c → c < l.size) :
    Claims l (addCell row col v) 0
      (fun k => row = some (l.branchRow k) ∨ col = some (l.branchRow k)) fun _ => True := by
  match row, col with
  | none, _ => exact .idle (fun _ => rfl) trivial
  | some r, none => exact .idle (fun _ => rfl) trivial
  | some r, some c =>
    have hadd : ∀ e : Equation α, e.Fits l → ∃ m,
        addCell (some r) (some c) v e = .ok () { e with admittances := m } ∧ m.size = l.size ∧
          ∀ i j, j < l.size → m.entry i j =
            if i = r ∧ j = c then e.admittances.entry i j + v else e.admittances.entry i j := by
      intro e he
      have hr : r < e.admittances.size := he.size_eq ▸ hrow r rfl
      have hc : c < e.admittances.size := he.size_eq ▸ hcol c rfl
      obtain ⟨m, hm, hs, hentry⟩ := e.admittances.modify_ok (· + v) hr hc (he.size_eq ▸ l.size_lt)
      rw [he.size_eq] at hs hentry
      have hadd : e.admittances.add r c v = .ok m := hm
      exact ⟨m, by simp only [addCell, hadd], hs, hentry⟩
    refine ⟨fun e he _ => ?_, fun e b e' he hm => ?_⟩
    · obtain ⟨m, hm, -⟩ := hadd e he
      exact ⟨(), _, hm⟩
    · obtain ⟨m, hm', hs, hentry⟩ := hadd e he
      cases hm'.symm.trans hm
      refine ⟨⟨he.1, he.2, hs, he.4⟩, trivial, rfl, fun k hk hnot => ⟨?_, ?_, rfl⟩⟩
      · intro j hj
        rw [hentry _ _ hj, if_neg fun h => hnot (.inl (congrArg some h.1.symm))]
      · intro i
        rw [hentry _ _ (l.branchRow_lt hk), if_neg fun h => hnot (.inr (congrArg some h.2.symm))]

theorem addInput_claims {row : Option Nat} (v : α) (hrow : ∀ r, row = some r → r < l.size) :
    Claims l (addInput row v) 0 (fun k => row = some (l.branchRow k)) fun _ => True := by
  match row with
  | none => exact .idle (fun _ => rfl) trivial
  | some r =>
    have hadd : ∀ e : Equation α, e.Fits l →
        addInput (some r) v e = .ok () { e with inputs := e.inputs.modify r (· + v) } := by
      intro e he
      exact if_pos (he.length_eq ▸ hrow r rfl)
    refine ⟨fun e he _ => ⟨(), _, hadd e he⟩, fun e b e' he hm => ?_⟩
    cases (hadd e he).symm.trans hm
    refine ⟨⟨he.1, he.2, he.3, by rw [List.length_modify, he.4]⟩, trivial, rfl,
      fun k hk hnot => ⟨fun _ _ => rfl, fun _ => rfl, ?_⟩⟩
    have hne : r ≠ l.branchRow k := fun h => hnot (congrArg some h)
    simp [hne]

theorem claimBranch_claims {b : Branch} (hb : b.number < l.numSources) :
    Claims l (claimBranch b : Stamping α Nat) 1 (fun _ => False)
      fun row => row = l.branchRow b := by
  refine ⟨fun e he hroom => ?_, fun e row e' he hm => ?_⟩
  · have hnot : ¬ (e.numSources ≤ e.numStamped ∨ e.numSources ≤ b.number) := by
      rw [he.numSources_eq]
      omega
    exact ⟨_, _, if_neg hnot⟩
  · simp only [claimBranch] at hm
    split at hm
    · cases hm
    · cases hm
      refine ⟨⟨he.1, he.2, he.3, he.4⟩, ?_, rfl, fun k _ _ => ⟨fun _ _ => rfl, fun _ => rfl, rfl⟩⟩
      rw [branchRow, he.numNodes_eq, l.position_current hb]

section Stamps
variable {a b : Node} (ha : a.number.toNat < l.numNodes) (hb : b.number.toNat < l.numNodes)
include ha hb

theorem stampConductance_claims (g : α) :
    Claims l (stampConductance g a b) 0 (fun _ => False) fun _ => True := by
  unfold stampConductance
  refine ((addCell_claims g (row_lt ha) (row_lt ha)).bind fun _ _ =>
    (addCell_claims g (row_lt hb) (row_lt hb)).bind fun _ _ =>
      (addCell_claims (-g) (row_lt ha) (row_lt hb)).bind fun _ _ =>
        addCell_claims (-g) (row_lt hb) (row_lt ha)).mono (fun k hk => ?_) fun _ _ => trivial
  have h1 := Node.row?_ne_branchRow ha k
  have h2 := Node.row?_ne_branchRow hb k
  simp [h1, h2] at hk

theorem stampCurrentSource_claims (i : α) :
    Claims l (stampCurrentSource i a b) 0 (fun _ => False) fun _ => True := by
  unfold stampCurrentSource
  refine ((addInput_claims (-i) (row_lt ha)).bind fun _ _ =>
    addInput_claims i (row_lt hb)).mono (fun k hk => ?_) fun _ _ => trivial
  have h1 := Node.row?_ne_branchRow ha k
  have h2 := Node.row?_ne_branchRow hb k
  simp [h1, h2] at hk

theorem stampCoupling_claims {k : Branch} (hk : k.number < l.numSources) :
    Claims l (stampCoupling (l.branchRow k) a b : Stamping α Unit) 0 (fun k' => k' = k)
      fun _ => True := by
  have hr : ∀ r, some (l.branchRow k) = some r → r < l.size := fun r h =>
    Option.some.inj h ▸ l.branchRow_lt hk
  unfold stampCoupling
  refine ((addCell_claims (-1) hr (row_lt ha)).bind fun _ _ =>
    (addCell_claims 1 hr (row_lt hb)).bind fun _ _ =>
      (addCell_claims 1 (row_lt ha) hr).bind fun _ _ =>
        addCell_claims (-1) (row_lt hb) hr).mono (fun k' hk' => ?_) fun _ _ => trivial
  have h1 := Node.row?_ne_branchRow ha k'
  have h2 := Node.row?_ne_branchRow hb k'
  simp only [h1, h2, false_or, or_false, or_self, Option.some.injEq] at hk'
  exact (l.branchRow_inj hk').symm

theorem stampVoltageSource_claims (v : α) {k : Branch} (hk : k.number < l.numSources) :
    Claims l (stampVoltageSource v a b k) 1 (fun k' => k' = k) fun row => row = l.branchRow k := by
  have hr : ∀ r, some (l.branchRow k) = some r → r < l.size := fun r h =>
    Option.some.inj h ▸ l.branchRow_lt hk
  unfold stampVoltageSource
  refine ((claimBranch_claims hk).bind (k := 0) (C := fun k' => k' = k) fun row hrow => ?_).mono
    (fun k' hk' => hk'.elim False.elim id) fun _ => id
  subst hrow
  refine ((stampCoupling_claims ha hb hk).bind fun _ _ =>
    (addInput_claims v hr).andReturn fun _ _ => rfl).mono (fun k' hk' => ?_) fun _ => Eq.symm
  rcases hk' with hk' | hk'
  · exact hk'
  · exact (l.branchRow_inj (Option.some.inj hk')).symm

theorem stampControlledSource_claims (gain : α) {c d : Node} (hc : c.number.toNat < l.numNodes)
    (hd : d.number.toNat < l.numNodes) {k : Branch} (hk : k.number < l.numSources) :
    Claims l (stampControlledSource gain a b c d k) 1 (fun k' => k' = k)
      fun row => row = l.branchRow k := by
  have hr : ∀ r, some (l.branchRow k) = some r → r < l.size := fun r h =>
    Option.some.inj h ▸ l.branchRow_lt hk
  unfold stampControlledSource
  refine ((claimBranch_claims hk).bind (k := 0) (C := fun k' => k' = k) fun row hrow => ?_).mono
    (fun k' hk' => hk'.elim False.elim id) fun _ => id
  subst hrow
  refine ((stampCoupling_claims hb ha hk).bind fun _ _ =>
    (addCell_claims (-gain) hr (row_lt hc)).bind fun _ _ =>
      (addCell_claims gain hr (row_lt hd)).andReturn fun _ _ => rfl).mono (fun k' hk' => ?_)
    fun _ => Eq.symm
  have h1 := Node.row?_ne_branchRow hc k'
  have h2 := Node.row?_ne_branchRow hd k'
  simp only [h1, h2, or_false, Option.some.injEq] at hk'
  rcases hk' with hk' | hk' | hk'
  · exact hk'
  · exact (l.branchRow_inj hk').symm
  · exact (l.branchRow_inj hk').symm

end Stamps

end Equation

namespace Stamping
open Equation
variable {l : Layout}

/-- A stamp claims its branch, if it has one, tells its row, and writes in no row of another. -/
theorem apply_claims {s : Stamp α} (h : s.Fits l) :
    Claims l s.apply s.branch?.toList.length (fun k => s.branch? = some k)
      fun row => row = s.branch?.map l.branchRow := by
  have hnodes := h.nodes_lt
  cases s with
  | conductance g a b =>
    simp only [Stamp.nodes, List.forall_mem_cons] at hnodes
    obtain ⟨ha, hb, -⟩ := hnodes
    exact ((stampConductance_claims ha hb g).andReturn fun _ _ => rfl).mono (fun _ => False.elim)
      fun _ => Eq.symm
  | resistor r a b =>
    simp only [Stamp.nodes, List.forall_mem_cons] at hnodes
    obtain ⟨ha, hb, -⟩ := hnodes
    have hr : stampResistor r a b = stampConductance (1 / r) a b := if_pos (h.positive r a b rfl)
    simp only [Stamp.apply, hr]
    exact ((stampConductance_claims ha hb (1 / r)).andReturn fun _ _ => rfl).mono
      (fun _ => False.elim) fun _ => Eq.symm
  | voltageSource v a b k =>
    simp only [Stamp.nodes, List.forall_mem_cons] at hnodes
    obtain ⟨ha, hb, -⟩ := hnodes
    refine ((stampVoltageSource_claims ha hb v (h.branch_lt k rfl)).andReturn
      fun row hrow => ?_).mono (fun _ hk => congrArg some hk.symm) fun _ => id
    exact congrArg some hrow
  | currentSource i a b =>
    simp only [Stamp.nodes, List.forall_mem_cons] at hnodes
    obtain ⟨ha, hb, -⟩ := hnodes
    exact ((stampCurrentSource_claims ha hb i).andReturn fun _ _ => rfl).mono (fun _ => False.elim)
      fun _ => Eq.symm
  | controlledSource gain outA outB inA inB k =>
    simp only [Stamp.nodes, List.forall_mem_cons] at hnodes
    obtain ⟨hoa, hob, hia, hib, -⟩ := hnodes
    refine ((stampControlledSource_claims hoa hob gain hia hib (h.branch_lt k rfl)).andReturn
      fun row hrow => ?_).mono (fun _ hk => congrArg some hk.symm) fun _ => id
    exact congrArg some hrow

theorem carryOut_append (stamps stamps' : List (Stamp α)) :
    carryOut (stamps ++ stamps') = (do carryOut stamps; carryOut stamps') := by
  induction stamps with
  | nil => rfl
  | cons s stamps ih => simp only [List.cons_append, carryOut, ih, bind_assoc]

theorem carryOut_claims {stamps : List (Stamp α)} (h : ∀ s ∈ stamps, s.Fits l) :
    Claims l (carryOut stamps) (stamps.filterMap Stamp.branch?).length
      (fun k => ∃ s ∈ stamps, s.branch? = some k) fun _ => True := by
  induction stamps with
  | nil => exact .pure trivial
  | cons s stamps ih =>
    obtain ⟨hs, hstamps⟩ := List.forall_mem_cons.1 h
    have hlen : ((s :: stamps).filterMap Stamp.branch?).length =
        s.branch?.toList.length + (stamps.filterMap Stamp.branch?).length := by
      cases hb : s.branch? <;> simp [hb, Nat.add_comm]
    rw [carryOut, hlen]
    refine ((apply_claims hs).bind fun _ _ => ih hstamps).mono (fun k hk => ?_) fun _ => id
    rcases hk with hk | ⟨s', hs', hk⟩
    · exact ⟨s, List.mem_cons_self, hk⟩
    · exact ⟨s', List.mem_cons_of_mem _ hs', hk⟩

end Stamping

/-! ## The stamps of a component -/

theorem Stamping.check_ok {α β : Type} (b : β) : (check (.ok b) : Stamping α β) = pure b := rfl

theorem Stamping.check_bind {α β γ : Type} (r : Except (Failure α) β)
    (f : β → Except (Failure α) γ) : check (r >>= f) = (do check (f (← check r))) := by
  cases r <;> rfl

namespace Component
open Stamping

/-- What the component checks before it is stamped into the static equation. -/
def check (d : Component α) : Except (Failure α) Unit :=
  match d.device with
  | .resistor _ _ resistance fault =>
    requirePositive d.name "resistance" (fault.effective resistance)
  | .wire _ _ branch => (requireBranch d.name branch).map fun _ => ()
  | .voltageSource _ _ waveform branch =>
    if waveform.isTimeVarying then .ok () else (requireBranch d.name branch).map fun _ => ()
  | .currentSource .. => .ok ()
  | .capacitor _ _ capacitance => requirePositive d.name "capacitance" capacitance
  | .inductor _ _ inductance => requirePositive d.name "inductance" inductance
  | .opAmp _ _ _ gain branch => do
    requireFinite d.name "gain" gain
    (requireBranch d.name branch).map fun _ => ()
  | .diode _ _ params => params.check d.name
  | .mosfet _ _ _ _ params => params.check d.name

/-- Its stamps in the static equation. -/
def fixedStamps (d : Component α) : List (Stamp α) :=
  match d.device with
  | .resistor a b resistance fault => [.resistor (fault.effective resistance) a b]
  | .wire a b branch => branch.toList.map (.voltageSource 0 a b)
  | .voltageSource a b waveform branch =>
    if waveform.isTimeVarying then []
    else branch.toList.map (.voltageSource (waveform.valueAt 0) a b)
  | .currentSource a b current => [.currentSource current a b]
  | .opAmp plus minus output gain branch =>
    branch.toList.map (.controlledSource gain output .ground plus minus)
  | _ => []

/-- What it checks before it is stamped with a tick, and the companion that it makes. -/
def makeCompanion (d : Component α) (timestep : α) (previous : ComponentState α) :
    Except (Failure α) (Option (Companion α)) :=
  match d.device with
  | .voltageSource _ _ waveform branch =>
    if waveform.isTimeVarying then (requireBranch d.name branch).map fun _ => none else .ok none
  | .capacitor _ _ capacitance =>
    (Companion.capacitor d.name capacitance timestep previous).map some
  | .inductor _ _ inductance => (Companion.inductor d.name inductance timestep previous).map some
  | _ => .ok none

/-- Its stamps in the equation of a tick, with the companion made for it. -/
def varyingStamps (d : Component α) (time : α) (made : Option (Companion α)) : List (Stamp α) :=
  match d.device with
  | .voltageSource a b waveform branch =>
    if waveform.isTimeVarying then branch.toList.map (.voltageSource (waveform.valueAt time) a b)
    else []
  | .capacitor a b _ | .inductor a b _ =>
    made.toList.flatMap fun k => [.conductance k.conductance a b, .currentSource k.history b a]
  | _ => []

theorem stampVoltage_eq (d : Component α) (v : α) (a b : Node) (branch : Option Branch) :
    d.stampVoltage v a b branch = (do
      Stamping.check ((requireBranch d.name branch).map fun _ => ())
      carryOut (branch.toList.map (.voltageSource v a b))) := by
  cases branch with
  | none => rfl
  | some k => simp [stampVoltage, requireBranch, Except.map, check_ok, carryOut, Stamp.apply]

/-- The static part of a component is its check with its fixed stamps after it. -/
theorem stamp_eq (d : Component α) :
    d.stamp = (do Stamping.check d.check; carryOut d.fixedStamps) := by
  obtain ⟨id, name, device⟩ := d
  cases device with
  | resistor a b resistance fault => simp [stamp, check, fixedStamps, carryOut, Stamp.apply]
  | wire a b branch => exact stampVoltage_eq ..
  | voltageSource a b waveform branch =>
    cases waveform with
    | constant voltage => exact stampVoltage_eq ..
    | sine voltage frequency zeroTime => rfl
  | currentSource a b current => simp [stamp, check, fixedStamps, carryOut, Stamp.apply, check_ok]
  | opAmp plus minus output gain branch =>
    simp only [stamp, check, fixedStamps, check_bind, bind_assoc]
    congr 1
    funext u
    cases branch with
    | none => rfl
    | some k => simp [requireBranch, Except.map, check_ok, carryOut, Stamp.apply]
  | _ => simp [stamp, check, fixedStamps, carryOut]

theorem stampCompanion_eq (made : Except (Failure α) (Companion α)) (a b : Node) :
    stampCompanion made a b = (do
      let made ← Stamping.check (made.map some)
      carryOut (made.toList.flatMap fun k =>
        [.conductance k.conductance a b, .currentSource k.history b a])
      return made) := by
  cases made with
  | error f => rfl
  | ok k =>
    simp [stampCompanion, Except.map, check_ok, Companion.stamp, carryOut, Stamp.apply]

/-- The part of a component in a tick is a check, which makes the companion, with its varying stamps
after it. -/
theorem stampDynamic_eq (d : Component α) (timestep time : α) (previous : ComponentState α) :
    d.stampDynamic timestep time previous = (do
      let made ← Stamping.check (d.makeCompanion timestep previous)
      carryOut (d.varyingStamps time made)
      return made) := by
  obtain ⟨id, name, device⟩ := d
  cases device with
  | voltageSource a b waveform branch =>
    cases waveform with
    | constant voltage => rfl
    | sine voltage frequency zeroTime =>
      simp only [stampDynamic, Waveform.isTimeVarying, if_true, stampVoltage_eq]
      cases branch with
      | none => rfl
      | some k =>
        simp [makeCompanion, requireBranch, Except.map, check_ok, varyingStamps,
          Waveform.isTimeVarying]
  | capacitor a b capacitance => exact stampCompanion_eq ..
  | inductor a b inductance => exact stampCompanion_eq ..
  | _ => rfl

end Component

end Nodal
