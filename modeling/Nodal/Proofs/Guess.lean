import Nodal.Proofs.PassiveCircuits

/-! # Where the iteration starts

The guess is read from the finished equation of a tick: a row with an input and a coefficient of
plus or minus one is taken for a source at that node. In the row of a branch nothing stands but what
the owner of the branch keeps (`Stamped.defect_branch`), so the rows that are taken for sources are
those of the voltage sources that have a voltage (`Stamped.seedOf_branch`), and of two sources at
one node the first one decides. -/

namespace Nodal

theorem findSome?_range' {β : Type} {f : Nat → Option β} {v : β} {start n k : Nat} (hk : k < n)
    (hv : f (start + k) = some v) (hnone : ∀ j < k, f (start + j) = none) :
    (List.range' start n).findSome? f = some v := by
  obtain ⟨m, rfl⟩ := Nat.exists_eq_add_of_lt hk
  have hsplit : List.range' start (k + m + 1) =
      List.range' start k ++ (start + k) :: List.range' (start + k + 1) m := by
    rw [← List.range'_succ, List.range'_append_1, Nat.add_assoc]
  refine List.findSome?_eq_some_iff.2 ⟨_, _, _, hsplit, hv, fun i hi => ?_⟩
  obtain ⟨hle, hlt⟩ := List.mem_range'_1.1 hi
  obtain ⟨j, rfl⟩ := Nat.exists_eq_add_of_le hle
  exact hnone j (Nat.lt_of_add_lt_add_left hlt)

theorem Node.row?_of_ne_ground {n : Node} (h : n ≠ .ground) :
    n.row? = some (n.number.toNat - 1) := by
  refine if_neg fun hground => h ?_
  obtain ⟨k⟩ := n
  exact congrArg Node.mk (beq_iff_eq.1 hground)

variable {α : Type} [ExactScalar α]

theorem voltageIn_unit {n i : Nat} (hi : i < n) (m : Node) :
    voltageIn (unit n i : List α) m = if m.row? = some i then 1 else 0 := by
  rw [voltageIn]
  cases m.row? with
  | none => rfl
  | some j =>
    simp only [unknownAt_some, Option.some.injEq]
    by_cases hj : j < n
    · exact getD_unit hj
    · have hne : j ≠ i := by omega
      simp [unit, List.getD_eq_getElem?_getD, hj, hne]

/-- What a row with an input and a coefficient of plus or minus one says. -/
theorem Equation.seedOf_eq_some_iff {e : Equation α} {i row : Nat} {v : α} :
    e.seedOf i row = some v ↔ e.inputs.getD row 0 ≠ 0 ∧
      (e.admittances.entry row i = 1 ∧ v = e.inputs.getD row 0 / 2 ∨
        e.admittances.entry row i = -1 ∧ v = -(e.inputs.getD row 0 / 2)) := by
  have hhalf : (0.5 : α) = 1 / 2 := by norm_num
  have hne : (1 : α) ≠ -1 := by norm_num
  rw [seedOf, Matrix.entry]
  generalize e.inputs.getD row 0 = value
  generalize e.admittances.cells.getD (row * e.admittances.size + i) 0 = coupling
  simp only [beq_iff_eq, Bool.or_eq_true, hhalf]
  split
  case isTrue hvalue => exact iff_of_false (Option.some_ne_none v).symm fun h => h.1 hvalue
  rename_i hvalue
  split
  case isFalse hcoupling =>
    exact iff_of_false (Option.some_ne_none v).symm fun h =>
      hcoupling (h.2.imp And.left And.left)
  rename_i hcoupling
  rw [Option.some.injEq, and_iff_right hvalue, eq_comm]
  rcases hcoupling with rfl | rfl
  · rw [and_iff_right rfl, or_iff_left fun h => hne h.1, mul_one, one_div_mul_eq_div]
  · rw [and_iff_right rfl, or_iff_right fun h => hne h.1.symm, mul_neg_one, one_div_mul_eq_div]

/-! ## Sources at a node -/

/-- On this branch the device is a voltage source with a voltage at this time, and the node is one
of its two terminals: the positive one starts at half the voltage, the other at minus half of it. -/
inductive Device.Starts (time : α) (n : Node) : Device α → Branch → α → Prop
  | positive {a : Node} {waveform : Waveform α} {k : Branch} :
    waveform.valueAt time ≠ 0 → a ≠ n →
    Starts time n (.voltageSource a n waveform (some k)) k (waveform.valueAt time / 2)
  | negative {b : Node} {waveform : Waveform α} {k : Branch} :
    waveform.valueAt time ≠ 0 → b ≠ n →
    Starts time n (.voltageSource n b waveform (some k)) k (-(waveform.valueAt time / 2))

theorem ite_sub_ite_eq_one {p q : Prop} [Decidable p] [Decidable q] :
    ((if p then 1 else 0) - if q then 1 else 0 : α) = 1 ↔ p ∧ ¬ q := by
  split_ifs with hp hq hq <;> simp [hp, hq]
  norm_num

theorem ite_sub_ite_eq_neg_one {p q : Prop} [Decidable p] [Decidable q] :
    ((if p then 1 else 0) - if q then 1 else 0 : α) = -1 ↔ ¬ p ∧ q := by
  rw [← neg_inj, neg_sub, neg_neg, ite_sub_ite_eq_one, and_comm]

/-- Of the devices with a row only a voltage source misses something when all its nodes are at zero.
Its voltage changes by one with that of a terminal. -/
theorem Device.starts_iff {time v : α} {n : Node} {d : Device α} {k : Branch}
    (hk : d.branch? = some k) {value coupling : α}
    (hvalue : value = -d.violation time (d.nodes.map fun _ => 0))
    (hcoupling : coupling = d.violation time (d.nodes.map fun m => if m = n then 1 else 0) -
      d.violation time (d.nodes.map fun _ => 0)) :
    d.Starts time n k v ↔
      value ≠ 0 ∧ (coupling = 1 ∧ v = value / 2 ∨ coupling = -1 ∧ v = -(value / 2)) := by
  subst hvalue hcoupling
  cases d with
  | voltageSource a b waveform branch =>
    cases hk
    simp only [violation, nodes, List.map_cons, List.map_nil, sub_zero, zero_sub, neg_neg,
      sub_neg_eq_add, sub_add_cancel, ite_sub_ite_eq_one, ite_sub_ite_eq_neg_one]
    constructor
    · rintro (⟨hvalue, ha⟩ | ⟨hvalue, hb⟩)
      · exact ⟨hvalue, .inl ⟨⟨rfl, ha⟩, rfl⟩⟩
      · exact ⟨hvalue, .inr ⟨⟨hb, rfl⟩, rfl⟩⟩
    · rintro ⟨hvalue, ⟨⟨rfl, ha⟩, rfl⟩ | ⟨⟨hb, rfl⟩, rfl⟩⟩
      · exact .positive hvalue ha
      · exact .negative hvalue hb
  | _ =>
    refine iff_of_false (by rintro ⟨⟩) fun h => h.1 ?_
    simp [violation, nodes]

theorem Device.Starts.branch?_eq {time v : α} {n : Node} {d : Device α} {k : Branch}
    (h : d.Starts time n k v) : d.branch? = some k := by
  cases h <;> rfl

namespace Circuit
variable {l : Layout} {c : Circuit α} {timestep time : α} {previous : CircuitState α}
  {companions : Companions α} {e : Equation α}

/-- In the row of a branch stands what its owner keeps, and nothing else. -/
theorem Stamped.defect_branch (h : Stamped l c timestep time previous companions e) (x : List α)
    {k : Nat} {d : Component α} (hd : c.sources[k]? = some d) :
    e.defect x (l.branchRow ⟨k⟩) = d.device.violation time (d.nodes.map (voltageIn x)) := by
  have htotal : e.defect x (l.branchRow ⟨k⟩) =
      totalRow l c timestep time previous x (l.branchRow ⟨k⟩) := by
    rw [h.defect_eq, totalRow]
    congr 1
    refine List.map_congr_left fun d' hd' => ite_eq_right_iff.2 fun hnonlinear => ?_
    have hnone : d'.device.branch? = none := by
      cases hdevice : d'.device <;> rw [hdevice] at hnonlinear <;> first | rfl | cases hnonlinear
    rw [Component.contribution_branch (h.circuit.component hd'), hnone,
      if_neg (Option.some_ne_none _).symm]
  have hvoltages : d.nodes.map (⟨0 :: x, c.numNodes⟩ : Solution α).voltage =
      d.nodes.map (voltageIn x) := List.map_congr_left fun n _ => Solution.voltage_eq x _ n
  rw [htotal, totalRow_branch h x hd, stateOf, Component.voltages_tickState, hvoltages]

theorem Stamped.input_branch (h : Stamped l c timestep time previous companions e) {k : Nat}
    {d : Component α} (hd : c.sources[k]? = some d) :
    e.inputs.getD (l.branchRow ⟨k⟩) 0 = -d.device.violation time (d.nodes.map fun _ => 0) := by
  have hdefect := h.defect_branch [] hd
  have hzero : e.admittances.rowSum ([] : List α) (l.branchRow ⟨k⟩) = 0 := by
    simp [Matrix.rowSum]
  rw [Equation.defect, hzero, zero_sub, funext voltageIn_nil] at hdefect
  rw [← hdefect, neg_neg]

theorem Stamped.entry_branch (h : Stamped l c timestep time previous companions e) {k : Nat}
    {d : Component α} (hd : c.sources[k]? = some d) {n : Node} {i : Nat} (hn : n.row? = some i)
    (hi : i < l.size) :
    e.admittances.entry (l.branchRow ⟨k⟩) i =
      d.device.violation time (d.nodes.map fun m => if m = n then 1 else 0) -
        d.device.violation time (d.nodes.map fun _ => 0) := by
  have hdefect := h.defect_branch (unit e.admittances.size i) hd
  have hi : i < e.admittances.size := h.equation.size_eq ▸ hi
  simp only [Equation.defect, e.admittances.rowSum_unit _ hi, h.input_branch hd,
    funext (voltageIn_unit hi), Node.row?_eq_iff hn] at hdefect
  rw [← hdefect]
  ring

/-- A row is taken for a source at a node when its owner is one. -/
theorem Stamped.seedOf_branch (h : Stamped l c timestep time previous companions e) {k : Nat}
    {d : Component α} (hd : c.sources[k]? = some d) {n : Node} {i : Nat} (hn : n.row? = some i)
    (hi : i < l.size) {v : α} :
    e.seedOf i (l.branchRow ⟨k⟩) = some v ↔ d.device.Starts time n ⟨k⟩ v := by
  rw [Equation.seedOf_eq_some_iff, Device.starts_iff (h.circuit.numbered.branch?_source hd)
    (h.input_branch hd) (h.entry_branch hd hn hi)]

end Circuit

/-! ## The guess -/

section Guess
variable {l : Layout} {e : Equation α}

theorem Equation.guess_eq (he : e.Fits l) :
    e.guess = (List.range (l.numNodes - 1)).map (fun i =>
        ((List.range' (l.numNodes - 1) l.numSources).findSome? (e.seedOf i)).getD 0) ++
      List.replicate l.numSources startingCurrent := by
  have hrows : e.numNodeRows = l.numNodes - 1 := congrArg (· - 1) he.numNodes_eq
  have hsources : e.size - (l.numNodes - 1) = l.numSources := by
    rw [size, he.length_eq, Layout.size, Nat.add_sub_cancel_left]
  rw [guess, hrows, hsources, List.map_const', List.length_range']

theorem Equation.length_guess (he : e.Fits l) :
    e.guess.length = l.numNodes - 1 + l.numSources := by
  simp [guess_eq he]

theorem Equation.guess_node (he : e.Fits l) {i : Nat} (hi : i < l.numNodes - 1) :
    e.guess[i]? =
      some (((List.range' (l.numNodes - 1) l.numSources).findSome? (e.seedOf i)).getD 0) := by
  rw [guess_eq he, List.getElem?_append_left (by simpa using hi)]
  simp [hi]

theorem Equation.guess_branch (he : e.Fits l) {k : Nat} (hk : k < l.numSources) :
    e.guess[l.numNodes - 1 + k]? = some startingCurrent := by
  rw [guess_eq he, List.getElem?_append_right (by simp)]
  simp [hk]

end Guess

namespace Circuit

/-- A voltage source of the circuit on this branch starts the node at `v`. -/
def Starts (c : Circuit α) (time : α) (n : Node) (k : Branch) (v : α) : Prop :=
  ∃ d ∈ c.components, d.device.Starts time n k v

/-- The equation of a tick that ends at this time. -/
def TickEquation (c : Circuit α) (time : α) (e : Equation α) : Prop :=
  ∃ e₀ timestep previous companions, c.staticEquation = .ok e₀ ∧
    c.stampTick timestep time previous e₀ = .ok companions e

/-- How a guess comes from the voltage sources of a circuit. -/
structure Guesses (c : Circuit α) (time : α) (guess : List α) : Prop where
  length_eq : guess.length = c.numNodes - 1 + c.numSources
  branch_eq : ∀ k < c.numSources, guess[c.numNodes - 1 + k]? = some 1e-4
  /-- Of the sources that start a node the one on the lowest branch decides. -/
  started : ∀ n : Node, n ≠ .ground → n.number.toNat < c.numNodes → ∀ k v,
    c.Starts time n k v → (∀ k' v', c.Starts time n k' v' → k.number ≤ k'.number) →
      guess[n.number.toNat - 1]? = some v
  /-- A node that no source starts is at zero. -/
  idle : ∀ n : Node, n ≠ .ground → n.number.toNat < c.numNodes →
    (∀ k v, ¬ c.Starts time n k v) → guess[n.number.toNat - 1]? = some 0

section Stamped
variable {l : Layout} {c : Circuit α} {timestep time : α} {previous : CircuitState α}
  {companions : Companions α} {e : Equation α}

theorem Stamped.seedOf_eq_none (h : Stamped l c timestep time previous companions e) {n : Node}
    {i k : Nat} (hn : n.row? = some i) (hi : i < l.size) (hk : k < l.numSources)
    (hnot : ∀ v, ¬ c.Starts time n ⟨k⟩ v) : e.seedOf i (l.branchRow ⟨k⟩) = none := by
  have hlt : k < c.sources.length := by
    rw [h.circuit.numbered.length_sources, h.circuit.numSources_eq]
    exact hk
  have hd : c.sources[k]? = some c.sources[k] := List.getElem?_eq_getElem hlt
  refine Option.eq_none_iff_forall_ne_some.2 fun v hv => hnot v ?_
  exact ⟨_, mem_of_source hd, (h.seedOf_branch hd hn hi).1 hv⟩

section Node
variable {n : Node} (h : Stamped l c timestep time previous companions e) (hground : n ≠ .ground)
  (hn : n.number.toNat < c.numNodes)
include h hground hn

theorem Stamped.row_node :
    n.row? = some (n.number.toNat - 1) ∧ n.number.toNat - 1 < l.numNodes - 1 := by
  have hrow := Node.row?_of_ne_ground hground
  exact ⟨hrow, n.row?_lt (h.circuit.numNodes_eq ▸ hn) hrow⟩

theorem Stamped.guess_started {k : Branch} {v : α} (hstarts : c.Starts time n k v)
    (hlowest : ∀ k' v', c.Starts time n k' v' → k.number ≤ k'.number) :
    e.guess[n.number.toNat - 1]? = some v := by
  obtain ⟨hrow, hi⟩ := h.row_node hground hn
  have hsize : n.number.toNat - 1 < l.size := Nat.lt_add_right _ hi
  have hbelow : ∀ j < k.number, ∀ v', ¬ c.Starts time n ⟨j⟩ v' := fun j hj v' hstarts' =>
    Nat.not_le_of_lt hj (hlowest _ _ hstarts')
  obtain ⟨d, hd, hstarts⟩ := hstarts
  have hsource := h.circuit.numbered.source_of_branch? hd hstarts.branch?_eq
  have hk : k.number < l.numSources := (h.circuit.component hd).branch_lt hstarts.branch?_eq
  have hv : e.seedOf (n.number.toNat - 1) (l.branchRow k) = some v :=
    (h.seedOf_branch hsource hrow hsize).2 hstarts
  have hnone : ∀ j < k.number, e.seedOf (n.number.toNat - 1) (l.branchRow ⟨j⟩) = none :=
    fun j hj => h.seedOf_eq_none hrow hsize (hj.trans hk) (hbelow j hj)
  rw [Equation.guess_node h.equation hi, findSome?_range' hk hv hnone, Option.getD_some]

theorem Stamped.guess_idle (hidle : ∀ k v, ¬ c.Starts time n k v) :
    e.guess[n.number.toNat - 1]? = some 0 := by
  obtain ⟨hrow, hi⟩ := h.row_node hground hn
  have hsize : n.number.toNat - 1 < l.size := Nat.lt_add_right _ hi
  have hnone : (List.range' (l.numNodes - 1) l.numSources).findSome?
      (e.seedOf (n.number.toNat - 1)) = none := by
    refine List.findSome?_eq_none_iff.2 fun row hmem => ?_
    obtain ⟨hle, hlt⟩ := List.mem_range'_1.1 hmem
    obtain ⟨k, rfl⟩ := Nat.exists_eq_add_of_le hle
    exact h.seedOf_eq_none hrow hsize (Nat.lt_of_add_lt_add_left hlt) (hidle ⟨k⟩)
  rw [Equation.guess_node h.equation hi, hnone, Option.getD_none]

end Node

theorem Stamped.guesses (h : Stamped l c timestep time previous companions e) :
    c.Guesses time e.guess where
  length_eq := by
    rw [h.circuit.numNodes_eq, h.circuit.numSources_eq]
    exact Equation.length_guess h.equation
  branch_eq k hk := by
    rw [h.circuit.numSources_eq] at hk
    rw [h.circuit.numNodes_eq]
    exact Equation.guess_branch h.equation hk
  started _ hground hn _ _ hstarts hlowest := h.guess_started hground hn hstarts hlowest
  idle _ hground hn hidle := h.guess_idle hground hn hidle

end Stamped

end Circuit

/-! ## What the guess depends on -/

/-- A voltage source at some time. -/
structure Supply (α : Type) where
  negative : Node
  positive : Node
  value : α
  deriving DecidableEq

/-- How far a source lifts one of its terminals above the other. -/
def Supply.lift? (n : Node) (s : Supply α) : Option α :=
  if s.value = 0 ∨ s.negative = s.positive then none
  else if s.positive = n then some s.value
  else if s.negative = n then some (-s.value)
  else none

def Device.supply? (time : α) : Device α → Option (Supply α)
  | .voltageSource a b waveform _ => some ⟨a, b, waveform.valueAt time⟩
  | _ => none

theorem Device.numSources_of_supply? {time : α} {d : Device α} {s : Supply α}
    (hs : d.supply? time = some s) : d.numSources ≠ 0 := by
  cases d <;> first | exact Nat.one_ne_zero | cases hs

theorem Device.starts_iff_lift? {time v : α} {n : Node} {d : Device α} {k : Branch} :
    d.Starts time n k v ↔
      d.branch? = some k ∧ ∃ u, (d.supply? time).bind (·.lift? n) = some u ∧ v = u / 2 := by
  constructor
  · rintro (⟨hvalue, ha⟩ | ⟨hvalue, hb⟩)
    · exact ⟨rfl, _, by simp [supply?, Supply.lift?, hvalue, ha], rfl⟩
    · exact ⟨rfl, _, by simp [supply?, Supply.lift?, hvalue, hb, hb.symm], (neg_div _ _).symm⟩
  · rintro ⟨hk, u, hu, rfl⟩
    cases d with
    | voltageSource a b waveform branch =>
      cases hk
      simp only [supply?, Option.bind_some, Supply.lift?, Option.ite_none_left_eq_some,
        not_or] at hu
      obtain ⟨⟨hvalue, hab⟩, hu⟩ := hu
      split_ifs at hu with hb ha
      · subst hb
        cases hu
        exact .positive hvalue hab
      · subst ha
        cases hu
        rw [neg_div]
        exact .negative hvalue hb
    | _ => cases hu

namespace Circuit

/-- The voltage sources of a circuit, in order. -/
def supplies (c : Circuit α) (time : α) : List (Supply α) :=
  c.components.filterMap (·.device.supply? time)

theorem Guesses.node_eq {c : Circuit α} {time : α} {guess : List α} (h : c.Guesses time guess)
    (hc : c.Numbered) {n : Node} (hground : n ≠ .ground) (hn : n.number.toNat < c.numNodes) :
    guess[n.number.toNat - 1]? = some (((c.supplies time).findSome? (·.lift? n)).getD 0 / 2) := by
  rw [supplies, ← List.head?_filterMap, List.filterMap_filterMap, List.head?_filterMap]
  cases hfind : c.components.findSome? fun d => (d.device.supply? time).bind (·.lift? n) with
  | none =>
    rw [Option.getD_none, zero_div]
    refine h.idle n hground hn fun k v ⟨d, hd, hstarts⟩ => ?_
    obtain ⟨-, u, hu, -⟩ := Device.starts_iff_lift?.1 hstarts
    rw [List.findSome?_eq_none_iff.1 hfind d hd] at hu
    cases hu
  | some u =>
    obtain ⟨before, d, after, hsplit, hu, hnone⟩ := List.findSome?_eq_some_iff.1 hfind
    have hd : d ∈ c.components := hsplit ▸ List.mem_append_right _ (.head _)
    obtain ⟨s, hs, -⟩ := Option.bind_eq_some_iff.1 hu
    obtain ⟨k, hk, -⟩ := hc.exists_branch hd (Device.numSources_of_supply? hs)
    refine h.started n hground hn k _ ⟨d, hd, Device.starts_iff_lift?.2 ⟨hk, u, hu, rfl⟩⟩
      fun k' v' ⟨d', hd', hstarts⟩ => ?_
    obtain ⟨hk', u', hu', -⟩ := Device.starts_iff_lift?.1 hstarts
    refine hc.branch_le_of_split hsplit hk hd' hk' fun hmem => ?_
    rw [hnone d' hmem] at hu'
    cases hu'

theorem TickEquation.guesses {c : Circuit α} {time : α} {e : Equation α} (hc : c.Built)
    (he : c.TickEquation time e) : e.guess.length = e.size ∧ c.Guesses time e.guess := by
  obtain ⟨e₀, timestep, previous, companions, he₀, hstamp⟩ := he
  obtain ⟨l, h⟩ := stamped_of_stampTick hc.numbered he₀ hstamp
  have hguess := h.guesses
  refine ⟨?_, hguess⟩
  rw [hguess.length_eq, h.circuit.numNodes_eq, h.circuit.numSources_eq, Equation.size,
    h.equation.length_eq, Layout.size]

/-- In every tick a node starts at half the voltage of its first source, up to the sign, and a
branch at a small current. Nothing but the voltage sources and their order plays a part: circuits
that agree there start their nodes alike, whatever else stands in their equations. -/
theorem guess_from_sources {c : Circuit α} {time : α} {e : Equation α} (hc : c.Built)
    (he : c.TickEquation time e) (elements : List (Component α)) (gmin : α) :
    (e.toSystem elements gmin).guess.length = e.size ∧
    c.Guesses time (e.toSystem elements gmin).guess ∧
    ∀ (c' : Circuit α) (time' : α) (e' : Equation α) (elements' : List (Component α)) (gmin' : α),
      c'.Built → c'.TickEquation time' e' → c'.supplies time' = c.supplies time →
      ∀ n : Node, n ≠ .ground → n.number.toNat < c.numNodes → n.number.toNat < c'.numNodes →
        (e'.toSystem elements' gmin').guess[n.number.toNat - 1]? =
          (e.toSystem elements gmin).guess[n.number.toNat - 1]? := by
  obtain ⟨hsize, hguess⟩ := he.guesses hc
  refine ⟨hsize, hguess, fun c' time' e' _ _ hc' he' hsame n hground hn hn' => ?_⟩
  obtain ⟨-, hguess'⟩ := he'.guesses hc'
  have hnode := hguess.node_eq hc.numbered hground hn
  have hnode' := hguess'.node_eq hc'.numbered hground hn'
  rw [hsame] at hnode'
  exact hnode'.trans hnode.symm

theorem exists_tickEquation (cs : List (Component α)) (timestep time : α)
    {p : Circuit α → Equation α → Bool}
    (h : (ofComponents cs).toOption.any fun c => c.staticEquation.toOption.any fun e₀ =>
      succeeds (c.stampTick timestep time [] e₀) && p c (after (c.stampTick timestep time [] e₀))) :
    ∃ c e, c.Built ∧ c.TickEquation time e ∧ p c e := by
  obtain ⟨c, hc, h⟩ := exists_ok_of_any h
  obtain ⟨e₀, he₀, h⟩ := exists_ok_of_any h
  obtain ⟨hsucceeds, hp⟩ := Bool.and_eq_true_iff.1 h
  obtain ⟨companions, hstamp⟩ := exists_of_succeeds hsucceeds
  exact ⟨c, _, ⟨cs, hc⟩, ⟨e₀, timestep, [], companions, he₀, hstamp⟩, hp⟩

/-- A source with both ends at one node, one that crosses zero, and two at one node. -/
def crowd : List (Component ℚ) :=
  [⟨⟨2⟩, "V2", .voltageSource ⟨3⟩ ⟨3⟩ (.constant 4) none⟩,
    ⟨⟨3⟩, "V3", .voltageSource .ground ⟨1⟩ (.sine 7 1 1) none⟩,
    ⟨⟨4⟩, "V4", .voltageSource .ground ⟨1⟩ (.constant 5) none⟩,
    ⟨⟨5⟩, "V5", .voltageSource ⟨1⟩ ⟨2⟩ (.constant 3) none⟩,
    ⟨⟨6⟩, "V6", .voltageSource ⟨4⟩ .ground (.constant 3) none⟩,
    ⟨⟨7⟩, "D7", .diode ⟨2⟩ ⟨3⟩ ⟨1, 1⟩⟩]

/-- An amplifier of gain one and a wire, whose rows look like that of a source. -/
def follower : List (Component ℚ) :=
  [⟨⟨0⟩, "E0", .opAmp ⟨1⟩ ⟨2⟩ ⟨3⟩ 1 none⟩, ⟨⟨1⟩, "W1", .wire ⟨3⟩ ⟨4⟩ none⟩]

theorem guess_from_sources_crowd :
    ∃ (c c' : Circuit ℚ) (e e' : Equation ℚ), c.Built ∧ c.TickEquation 1 e ∧ c'.Built ∧
      c'.TickEquation 1 e' ∧ c'.numSources = c.numSources + 2 ∧ c.Guesses 1 e.guess ∧
      e.guess.take 4 = [5 / 2, 3 / 2, 0, -3 / 2] ∧ e'.guess[3]? = e.guess[3]? := by
  let inCrowd (c : Circuit ℚ) : Bool := c.numNodes = 5 ∧
    c.supplies 1 = crowd.filterMap (·.device.supply? 1)
  obtain ⟨c, e, hc, he, hp⟩ := exists_tickEquation crowd 1 1
    (p := fun c e => inCrowd c && c.numSources = 5 &&
      e.guess.take 4 = [5 / 2, 3 / 2, 0, -3 / 2]) (by decide +kernel)
  obtain ⟨c', e', hc', he', hp'⟩ := exists_tickEquation (follower ++ crowd) 1 1
    (p := fun c _ => inCrowd c && c.numSources = 7) (by decide +kernel)
  simp only [inCrowd, Bool.and_eq_true, decide_eq_true_eq] at hp hp'
  obtain ⟨⟨⟨hnodes, hsupplies⟩, hsources⟩, hvalues⟩ := hp
  obtain ⟨⟨hnodes', hsupplies'⟩, hsources'⟩ := hp'
  obtain ⟨-, hguesses, hsame⟩ := guess_from_sources hc he [] 0
  refine ⟨c, c', e, e', hc, he, hc', he', by rw [hsources, hsources'], hguesses, hvalues, ?_⟩
  exact hsame c' 1 e' [] 0 hc' he' (hsupplies'.trans hsupplies.symm) ⟨4⟩ (by decide)
    (hnodes ▸ by decide) (hnodes' ▸ by decide)

end Circuit

end Nodal
