import Mathlib.Algebra.Module.Pi
import Mathlib.Algebra.Module.Submodule.Basic
import Nodal.Proofs.Exact
import Nodal.Proofs.Families
import Nodal.Proofs.Scripts

/-! # Stamps and solutions are linear

Values vary along a subspace when their family lies in it: of three values, the third may always be
the same combination of the other two. Equations with one matrix whose inputs vary along a subspace
stay such when stamps are carried out that vary along it, and their solutions vary along it too.
Pivots and failures are decided by the matrix alone, so the solves end alike. -/

namespace Nodal
variable {ι α : Type} [ExactScalar α] {L : Submodule α (ι → α)}

theorem dot_mem (coeffs : List α) {xs : ι → List α} (h : Each (· ∈ L) xs) :
    (fun i => Scalar.dot coeffs (xs i)) ∈ L := by
  induction h generalizing coeffs with
  | nil h =>
    simp only [h, Scalar.dot_nil_right]
    exact L.zero_mem
  | cons x xs h hx _ ih =>
    simp only [h]
    cases coeffs with
    | nil =>
      simp only [Scalar.dot_nil]
      exact L.zero_mem
    | cons c coeffs =>
      simp only [Scalar.dot_cons]
      exact L.add_mem (L.smul_mem c hx) (ih coeffs)

theorem getD_mem {xs : ι → List α} (h : Each (· ∈ L) xs) (k : Nat) :
    (fun i => (xs i).getD k 0) ∈ L := by
  simp only [List.getD_eq_getElem?_getD]
  cases h.getElem? k with
  | none hx =>
    simp only [hx]
    exact L.zero_mem
  | some x hx hmem =>
    simp only [hx]
    exact hmem

theorem replicate_zero_mem (n : Nat) : Each (· ∈ L) fun _ : ι => List.replicate n (0 : α) :=
  Each.replicate n L.zero_mem

/-! ## Elimination -/

namespace Row

/-- The rows have the same coefficients, and their right-hand sides vary along the subspace. -/
def Along (L : Submodule α (ι → α)) (r : ι → Row α) : Prop :=
  ∃ coeffs rhs, (∀ i, r i = ⟨coeffs, rhs i⟩) ∧ Possibly (· ∈ L) rhs

theorem zip_along (rows : List (List α)) {b : ι → List α} (hb : Each (· ∈ L) b) :
    Each (Along L) fun i => zip rows (b i) := by
  induction rows generalizing b with
  | nil => exact .nil fun _ => rfl
  | cons coeffs rows ih =>
    cases hb with
    | nil hnil =>
      obtain rfl : b = fun _ => [] := funext hnil
      exact .cons _ _ (fun _ => rfl) ⟨coeffs, _, fun _ => rfl, .none fun _ => rfl⟩
        (ih (.nil fun _ => rfl))
    | cons v vs hcons hv hvs =>
      obtain rfl : b = fun i => v i :: vs i := funext hcons
      exact .cons _ _ (fun _ => rfl) ⟨coeffs, _, fun _ => rfl, .some v (fun _ => rfl) hv⟩ (ih hvs)

theorem Along.lead {r : ι → Row α} (h : Along L r) : Same fun i => (r i).lead := by
  obtain ⟨coeffs, rhs, hr, -⟩ := h
  exact ⟨coeffs.headD 0, fun i => congrArg Row.lead (hr i)⟩

/-- The pivot is picked by the leading coefficients alone. -/
theorem largestLead_eq (first : Row α) (rest : List (Row α)) :
    largestLead first rest = ((rest.map lead).zipIdx 1).foldl
      (fun best (v, i) => if best.2 < Scalar.abs v then (i, Scalar.abs v) else best)
      (0, Scalar.abs first.lead) := by
  rw [List.zipIdx_map, List.foldl_map]
  rfl

theorem largestLead_along {first : ι → Row α} {rest : ι → List (Row α)} (hfirst : Along L first)
    (hrest : Each (Along L) rest) : Same fun i => largestLead (first i) (rest i) := by
  obtain ⟨v, hv⟩ := hfirst.lead
  obtain ⟨vs, hvs⟩ := hrest.same_map fun _ => Along.lead
  simp only [largestLead_eq, hv, hvs]
  exact .const _

theorem exchange_along {first : ι → Row α} {rest : ι → List (Row α)} (hfirst : Along L first)
    (hrest : Each (Along L) rest) (j : Nat) :
    Alike (ε := Halt α) (fun p : ι → Row α × List (Row α) =>
      Along L (fun i => (p i).1) ∧ Each (Along L) fun i => (p i).2)
      fun i => exchange (first i) (rest i) j := by
  cases j with
  | zero => exact .pure ⟨hfirst, hrest⟩
  | succ j =>
    simp only [exchange]
    cases hrest.getElem? j with
    | none hr =>
      simp only [hr]
      exact .error _ fun _ => rfl
    | some r hr halong =>
      simp only [hr]
      have hset := hrest.set hfirst j
      obtain ⟨coeffs, rhs, hfirst, hrhs⟩ := hfirst
      obtain ⟨coeffs', rhs', hr', hrhs'⟩ := halong
      have hsome : Same fun i => (first i).rhs.isSome && (r i).rhs.isSome := by
        simp only [hfirst, hr']
        cases hrhs with
        | none h =>
          simp only [h]
          exact .const _
        | some v h _ =>
          cases hrhs' with
          | none h' =>
            simp only [h']
            exact ⟨false, fun i => Bool.and_false _⟩
          | some v' h' _ =>
            simp only [h, h']
            exact .const _
      obtain ⟨both, hboth⟩ := hsome
      simp only [hboth]
      cases both with
      | true => exact .pure ⟨⟨coeffs', rhs', hr', hrhs'⟩, hset⟩
      | false => exact .error _ fun _ => rfl

theorem reduce_along {p r : ι → Row α} (hp : Along L p) (hr : Along L r) :
    Alike (ε := Halt α) (Along L) fun i => reduce (p i) (r i) := by
  obtain ⟨coeffs, rhs, hp, hrhs⟩ := hp
  obtain ⟨coeffs', rhs', hr, hrhs'⟩ := hr
  simp only [reduce, lead, tail, hp, hr]
  split
  · exact .pure ⟨_, rhs', fun _ => rfl, hrhs'⟩
  · cases hrhs' with
    | none h' =>
      simp only [h']
      exact .error _ fun _ => rfl
    | some s h' hs =>
      cases hrhs with
      | none h =>
        simp only [h, h']
        exact .error _ fun _ => rfl
      | some t h ht =>
        simp only [h, h']
        exact .pure ⟨_, _, fun _ => rfl, .some _ (fun _ => rfl) (L.sub_mem hs (L.smul_mem _ ht))⟩

/-- Solutions of rows along a subspace vary along it. -/
theorem solve_along (n : Nat) {rows : ι → List (Row α)} (h : Each (Along L) rows) :
    Alike (Each (· ∈ L)) fun i => solve n (rows i) := by
  induction n generalizing rows with
  | zero =>
    simp only [solve]
    exact .pure (.nil fun _ => rfl)
  | succ n ih =>
    cases h with
    | nil h =>
      simp only [h, solve]
      exact .pure (.nil fun _ => rfl)
    | cons first rest h hfirst hrest =>
      obtain ⟨⟨position, size⟩, hlargest⟩ := largestLead_along hfirst hrest
      simp only [h, solve, hlargest]
      split
      · refine (exchange_along hfirst hrest position).bind fun p hp => ?_
        refine (Alike.mapM hp.2 fun r => reduce_along hp.1).bind fun reduced hreduced => ?_
        refine (ih hreduced).bind fun xs hxs => ?_
        obtain ⟨coeffs, rhs, hp, hrhs⟩ := hp.1
        simp only [hp, tail, lead]
        cases hrhs with
        | none hrhs =>
          simp only [hrhs]
          exact .error _ fun _ => rfl
        | some t hrhs ht =>
          simp only [hrhs]
          have hx : (fun i => (t i - Scalar.dot coeffs.tail (xs i)) / coeffs.headD 0) ∈ L := by
            simp only [div_eq_inv_mul]
            exact L.smul_mem _ (L.sub_mem ht (dot_mem coeffs.tail hxs))
          exact .pure (.cons _ _ (fun _ => rfl) hx hxs)
      · exact .error _ fun _ => rfl

end Row

/-! ## Equations -/

namespace Equation

/-- The equations are the same but for their inputs, which vary along the subspace. -/
def Along (L : Submodule α (ι → α)) (e : ι → Equation α) : Prop :=
  ∃ (e₀ : Equation α) (inputs : ι → List α),
    (∀ i, e i = { e₀ with inputs := inputs i }) ∧ Each (· ∈ L) inputs

theorem blank_along (numNodes numSources : Nat) :
    Alike (Along L) fun _ : ι => (blank numNodes numSources : Outcome α (Equation α)) := by
  unfold blank
  split
  · exact .error _ fun _ => rfl
  · dsimp only
    split
    · exact .error _ fun _ => rfl
    · exact .pure ⟨⟨.zeros _, [], numNodes, numSources, 0⟩, _, fun _ => rfl, replicate_zero_mem _⟩

theorem Along.solve {e : ι → Equation α} (h : Along L e) :
    Alike (Each (· ∈ L)) fun i => (e i).solve := by
  obtain ⟨e₀, inputs, he, hinputs⟩ := h
  simp only [Equation.solve, Matrix.solve, he]
  exact Row.solve_along _ (Row.zip_along _ hinputs)

theorem addCell_along (row col : Option Nat) (v : α) :
    Parallel (Along L) (fun _ => True) fun _ : ι => addCell row col v := by
  rintro e ⟨e₀, inputs, he, hinputs⟩
  match row, col with
  | none, _ => exact .ok _ e (fun _ => rfl) trivial ⟨e₀, inputs, he, hinputs⟩
  | some r, none => exact .ok _ e (fun _ => rfl) trivial ⟨e₀, inputs, he, hinputs⟩
  | some r, some c =>
    obtain rfl : e = _ := funext he
    simp only [addCell]
    cases e₀.admittances.add r c v with
    | ok m =>
      exact .ok _ _ (fun _ => rfl) trivial
        ⟨{ e₀ with admittances := m }, inputs, fun _ => rfl, hinputs⟩
    | error halt => exact .error halt _ (fun _ => rfl) ⟨e₀, inputs, fun _ => rfl, hinputs⟩

theorem addInput_along (row : Option Nat) {v : ι → α} (hv : v ∈ L) :
    Parallel (Along L) (fun _ => True) fun i => addInput row (v i) := by
  rintro e ⟨e₀, inputs, he, hinputs⟩
  match row with
  | none => exact .ok _ e (fun _ => rfl) trivial ⟨e₀, inputs, he, hinputs⟩
  | some r =>
    obtain rfl : e = _ := funext he
    obtain ⟨n, hn⟩ := hinputs.length
    have hadded : Each (· ∈ L) fun i => (inputs i).modify r (· + v i) :=
      hinputs.modify (f := fun i => (· + v i)) (fun x hx => L.add_mem hx hv) r
    simp only [addInput, hn]
    split
    · exact .ok _ _ (fun _ => rfl) trivial ⟨e₀, _, fun _ => rfl, hadded⟩
    · exact .error _ _ (fun _ => rfl) ⟨e₀, inputs, fun _ => rfl, hinputs⟩

theorem claimBranch_along (b : Branch) :
    Parallel (Along L) Same fun _ : ι => (claimBranch b : Stamping α Nat) := by
  rintro e ⟨e₀, inputs, he, hinputs⟩
  obtain rfl : e = _ := funext he
  simp only [claimBranch]
  split
  · exact .error _ _ (fun _ => rfl) ⟨e₀, inputs, fun _ => rfl, hinputs⟩
  · exact .ok _ _ (fun _ => rfl) (.const (e₀.branchRow b))
      ⟨{ e₀ with numStamped := e₀.numStamped + 1 }, inputs, fun _ => rfl, hinputs⟩

theorem stampConductance_along (g : α) (a b : Node) :
    Parallel (Along L) (fun _ => True) fun _ : ι => stampConductance g a b :=
  (addCell_along _ _ g).bind fun _ _ => (addCell_along _ _ g).bind fun _ _ =>
    (addCell_along _ _ (-g)).bind fun _ _ => addCell_along _ _ (-g)

theorem stampResistor_along (r : α) (a b : Node) :
    Parallel (Along L) (fun _ => True) fun _ : ι => stampResistor r a b := by
  unfold stampResistor
  split
  · exact stampConductance_along _ a b
  · exact .throw _

theorem stampCoupling_along (row : Nat) (a b : Node) :
    Parallel (Along L) (fun _ => True) fun _ : ι => (stampCoupling row a b : Stamping α Unit) :=
  (addCell_along _ _ _).bind fun _ _ => (addCell_along _ _ _).bind fun _ _ =>
    (addCell_along _ _ _).bind fun _ _ => addCell_along _ _ _

theorem stampVoltageSource_along {v : ι → α} (hv : v ∈ L) (a b : Node) (branch : Branch) :
    Parallel (Along L) Same fun i => stampVoltageSource (v i) a b branch := by
  refine (claimBranch_along branch).bind fun row hrow => ?_
  obtain ⟨row, rfl⟩ : ∃ r, row = fun _ => r := hrow.imp fun r hr => funext hr
  exact (stampCoupling_along row a b).bind fun _ _ => (addInput_along _ hv).bind fun _ _ =>
    .pure (.const row)

theorem stampCurrentSource_along {v : ι → α} (hv : v ∈ L) (a b : Node) :
    Parallel (Along L) (fun _ => True) fun i => stampCurrentSource (v i) a b :=
  (addInput_along _ (L.neg_mem hv)).bind fun _ _ => addInput_along _ hv

theorem stampControlledSource_along (gain : α) (outA outB inA inB : Node) (branch : Branch) :
    Parallel (Along L) Same fun _ : ι => stampControlledSource gain outA outB inA inB branch := by
  refine (claimBranch_along branch).bind fun row hrow => ?_
  obtain ⟨row, rfl⟩ : ∃ r, row = fun _ => r := hrow.imp fun r hr => funext hr
  exact (stampCoupling_along row outB outA).bind fun _ _ => (addCell_along _ _ _).bind fun _ _ =>
    (addCell_along _ _ _).bind fun _ _ => .pure (.const row)

end Equation

/-! ## Stamps -/

/-- The stamps are the same but for what sources put into the inputs. -/
inductive Stamp.Along (L : Submodule α (ι → α)) (s : ι → Stamp α) : Prop
  | conductance (g : α) (a b : Node) : (∀ i, s i = .conductance g a b) → Along L s
  | resistor (r : α) (a b : Node) : (∀ i, s i = .resistor r a b) → Along L s
  | voltageSource (v : ι → α) (a b : Node) (branch : Branch) :
      (∀ i, s i = .voltageSource (v i) a b branch) → v ∈ L → Along L s
  | currentSource (v : ι → α) (a b : Node) : (∀ i, s i = .currentSource (v i) a b) → v ∈ L →
      Along L s
  | controlledSource (gain : α) (outA outB inA inB : Node) (branch : Branch) :
      (∀ i, s i = .controlledSource gain outA outB inA inB branch) → Along L s

theorem Stamp.Along.apply {s : ι → Stamp α} (h : Along L s) :
    Parallel (Equation.Along L) (fun _ => True) fun i => (s i).apply := by
  cases h with
  | conductance g a b h =>
    simp only [h, Stamp.apply]
    exact (Equation.stampConductance_along g a b).bind fun _ _ => .pure trivial
  | resistor r a b h =>
    simp only [h, Stamp.apply]
    exact (Equation.stampResistor_along r a b).bind fun _ _ => .pure trivial
  | voltageSource v a b branch h hv =>
    simp only [h, Stamp.apply]
    exact (Equation.stampVoltageSource_along hv a b branch).bind fun _ _ => .pure trivial
  | currentSource v a b h hv =>
    simp only [h, Stamp.apply]
    exact (Equation.stampCurrentSource_along hv a b).bind fun _ _ => .pure trivial
  | controlledSource gain outA outB inA inB branch h =>
    simp only [h, Stamp.apply]
    exact (Equation.stampControlledSource_along gain outA outB inA inB branch).bind fun _ _ =>
      .pure trivial

theorem Stamping.carryOut_along {stamps : ι → List (Stamp α)} (h : Each (Stamp.Along L) stamps) :
    Parallel (Equation.Along L) (fun _ => True) fun i => carryOut (stamps i) := by
  induction h with
  | nil h =>
    simp only [h]
    exact .pure trivial
  | cons s stamps h hs _ ih =>
    simp only [h, carryOut]
    exact hs.apply.bind fun _ _ => ih

/-- A check that ends alike. -/
theorem Stamping.check_along {β : Type} {P : (ι → β) → Prop} {r : ι → Except (Failure α) β}
    (h : Alike P r) : Parallel (Equation.Along L) P fun i => check (r i) := by
  cases h with
  | ok b hr hb =>
    simp only [hr]
    exact .pure hb
  | error f hr =>
    simp only [hr]
    exact .throw _

end Nodal
