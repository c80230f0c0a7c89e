import Nodal.Proofs.Grounding
import Nodal.Proofs.Ranges

/-! # What validation accepts

The search for floating nodes is complete: it stops when no group is left that has a reached node,
so what it has reached is closed under sharing a component (`spread_closed`). A circuit is accepted
when a chain of components leads from ground to every node up to the highest, and refused for the
lowest node without such a chain; only a circuit with more nodes than its tables can have is
neither. -/

namespace Nodal.Circuit

/-! ## The search is complete -/

theorem length_far_lt {groups : List (List Node)} {reached : List Node}
    (h : ¬ (near groups reached).isEmpty) : (far groups reached).length < groups.length := by
  have hsplit := List.length_eq_length_filter_add (l := groups) (touches reached)
  have hnear : 0 < (near groups reached).length := by
    rw [List.length_pos_iff]
    exact fun hnil => h (List.isEmpty_iff.2 hnil)
  unfold near at hnear
  unfold far
  omega

/-- Once a node of a group is reached, all nodes of the group are. -/
theorem spread_closed {rounds : Nat} {groups : List (List Node)} {reached g : List Node}
    {m n : Node} (hrounds : groups.length ≤ rounds) (hg : g ∈ groups) (hm : m ∈ g) (hn : n ∈ g)
    (hreached : m ∈ spread rounds groups reached) : n ∈ spread rounds groups reached := by
  induction rounds generalizing groups reached with
  | zero =>
    have hpos := List.length_pos_of_mem hg
    omega
  | succ rounds ih =>
    rw [spread] at hreached ⊢
    split at hreached
    · rename_i hnone
      -- the group has a reached node, so it is near
      have htouches : touches reached g = true :=
        List.any_eq_true.2 ⟨m, hm, List.contains_iff_mem.2 hreached⟩
      have hnear : g ∈ near groups reached := List.mem_filter.2 ⟨hg, htouches⟩
      rw [List.isEmpty_iff.1 hnone] at hnear
      cases hnear
    · rename_i hsome
      rw [if_neg hsome]
      by_cases htouches : touches reached g = true
      · refine subset_spread _ _ _ n (List.mem_append_right _ ?_)
        exact List.mem_flatten.2 ⟨g, List.mem_filter.2 ⟨hg, htouches⟩, hn⟩
      · have hfar : g ∈ far groups reached := List.mem_filter.2 ⟨hg, by simpa using htouches⟩
        have hlength := length_far_lt hsome
        exact ih (by omega) hfar hreached

/-- The search reaches the nodes that chains of groups join to the first ones, and no others. -/
theorem mem_reachable_iff {groups : List (List Node)} {reached : List Node} {n : Node} :
    n ∈ reachable groups reached ↔
      ∃ m ∈ reached, Relation.ReflTransGen (Joined groups) m n := by
  refine ⟨mem_spread, ?_⟩
  rintro ⟨m, hm, hchain⟩
  induction hchain with
  | refl => exact subset_spread _ _ _ m hm
  | tail _ hjoined ih =>
    obtain ⟨g, hg, hk, hn⟩ := hjoined
    exact spread_closed (Nat.le_refl _) hg hk hn ih

variable {α : Type} {c : Circuit α} {cs : List (Component α)}

theorem joined_iff_linked {m n : Node} :
    Joined (c.components.map Component.nodes) m n ↔ c.Linked m n := by
  simp only [Joined, Linked, List.mem_map, exists_exists_and_eq_and, Component.nodes]

theorem mem_grounded_iff {n : Node} :
    n ∈ c.grounded ↔ Relation.ReflTransGen c.Linked .ground n := by
  have hsame : Joined (c.components.map Component.nodes) = c.Linked := by
    funext m n
    exact propext joined_iff_linked
  rw [grounded, mem_reachable_iff, hsame]
  simp only [List.mem_singleton, exists_eq_left]

/-! ## Floating nodes -/

/-- A node up to the highest, ground apart, to which no chain of components leads from ground. -/
def Floating (c : Circuit α) (n : Node) : Prop :=
  0 < n.number.toNat ∧ n.number.toNat < c.numNodes ∧ ¬ Relation.ReflTransGen c.Linked .ground n

/-- No floating node is lower. -/
def LowestFloating (c : Circuit α) (n : Node) : Prop :=
  c.Floating n ∧ ∀ m, c.Floating m → n.number.toNat ≤ m.number.toNat

theorem LowestFloating.unique {m n : Node} (hm : c.LowestFloating m) (hn : c.LowestFloating n) :
    m = n :=
  congrArg Node.mk (UInt64.toNat_inj.1 (Nat.le_antisymm (hm.2 n hn.1) (hn.2 m hm.1)))

theorem toNat_ofNat_of_le {k : Nat} (hk : k ≤ nodeLimit) : (UInt64.ofNat k).toNat = k := by
  have hlimit : nodeLimit < 2 ^ 64 := by decide
  rw [UInt64.toNat_ofNat', Nat.mod_eq_of_lt (by omega)]

theorem lowest_of_floating? (hlimit : c.numNodes ≤ nodeLimit) {n : Node}
    (h : c.floating? = some n) : c.LowestFloating n := by
  unfold floating? at h
  rw [List.find?_map, Option.map_eq_some_iff] at h
  obtain ⟨k, hk, rfl⟩ := h
  rw [List.find?_range'_eq_some] at hk
  obtain ⟨hnot, hmem, hbefore⟩ := hk
  obtain ⟨hpos, hlt⟩ := List.mem_range'_1.1 hmem
  have hnumber := toNat_ofNat_of_le (k := k) (by omega)
  refine ⟨⟨?_, ?_, ?_⟩, ?_⟩
  · rw [hnumber]
    exact hpos
  · rw [hnumber]
    omega
  · rw [← mem_grounded_iff]
    simpa using hnot
  · rintro m ⟨hmpos, -, hm⟩
    rw [hnumber]
    by_contra hlower
    have hreached := hbefore m.number.toNat hmpos (by omega)
    simp only [Function.comp_apply, UInt64.ofNat_toNat, Bool.not_not, List.contains_iff_mem]
      at hreached
    exact hm (mem_grounded_iff.1 hreached)

theorem floating?_eq_none_iff (hlimit : c.numNodes ≤ nodeLimit) :
    c.floating? = none ↔ ∀ n, ¬ c.Floating n := by
  constructor
  · rintro h n ⟨-, hlt, hnot⟩
    exact hnot (linked_of_grounded (grounded_of_floating? h hlimit hlt))
  · intro hnone
    rw [Option.eq_none_iff_forall_not_mem]
    exact fun n hn => hnone n (lowest_of_floating? hlimit hn).1

theorem floating?_eq_some_iff (hlimit : c.numNodes ≤ nodeLimit) {n : Node} :
    c.floating? = some n ↔ c.LowestFloating n := by
  refine ⟨lowest_of_floating? hlimit, fun hn => ?_⟩
  cases h : c.floating? with
  | none => exact absurd hn.1 ((floating?_eq_none_iff hlimit).1 h n)
  | some m => rw [(lowest_of_floating? hlimit h).unique hn]

theorem length_nodes_le (cs : List (Component α)) :
    (cs.flatMap Component.nodes).length ≤ 3 * cs.length := by
  induction cs with
  | nil => exact Nat.le_refl _
  | cons d cs ih =>
    have hd : d.nodes.length ≤ 3 := by
      obtain ⟨id, name, device⟩ := d
      cases device <;> simp [Component.nodes, Device.nodes]
    rw [List.flatMap_cons, List.length_append, List.length_cons]
    omega

/-- A connected node stands in a component, and there are no more nodes than terminals. -/
theorem numNodes_le_of_connected (h : ∀ n, ¬ c.Floating n)
    (hfew : 3 * c.components.length < nodeLimit) : c.numNodes ≤ nodeLimit := by
  by_contra hmany
  have hsub : ((List.range' 1 nodeLimit).map fun k => (⟨UInt64.ofNat k⟩ : Node)) ⊆
      c.components.flatMap Component.nodes := by
    intro n hn
    obtain ⟨k, hk, rfl⟩ := List.mem_map.1 hn
    obtain ⟨hpos, hle⟩ := List.mem_range'_1.1 hk
    have hnumber := toNat_ofNat_of_le (k := k) (by omega)
    have hlinked : Relation.ReflTransGen c.Linked .ground ⟨UInt64.ofNat k⟩ := by
      by_contra hnot
      exact h _ ⟨by rw [hnumber]; exact hpos, by rw [hnumber]; omega, hnot⟩
    obtain hground | ⟨m, -, d, hd, -, hn⟩ := hlinked.cases_tail
    · have hzero : (UInt64.ofNat k).toNat = 0 := congrArg (fun n : Node => n.number.toNat) hground
      omega
    · exact List.mem_flatMap.2 ⟨d, hd, hn⟩
  have hle := (List.subperm_of_subset (nodup_nodes (Nat.le_refl _)) hsub).length_le
  have hterminals := length_nodes_le c.components
  rw [List.length_map, List.length_range'] at hle
  omega

/-! ## How validation ends -/

/-- What validation should say of a circuit. The conditions exclude each other. -/
inductive Verdict (c : Circuit α) : Outcome α Unit → Prop
  | empty : c.components = [] → Verdict c (.fail .noCircuit)
  | tooFew : c.components ≠ [] → c.numNodes < minNodes →
      Verdict c (.fail (.topology (.tooFewNodes c.numNodes)))
  /-- The tables of the circuit exceed any memory. -/
  | tooMany : c.components ≠ [] → minNodes ≤ c.numNodes → nodeLimit < c.numNodes →
      Verdict c (.misuse .tooManyNodes)
  | floating (n : Node) : c.components ≠ [] → minNodes ≤ c.numNodes → c.numNodes ≤ nodeLimit →
      c.LowestFloating n → Verdict c (.fail (.floatingNode n))
  | connected : c.components ≠ [] → minNodes ≤ c.numNodes → c.numNodes ≤ nodeLimit →
      (∀ n, ¬ c.Floating n) → Verdict c (.ok ())

theorem exists_verdict (c : Circuit α) : ∃ result, c.Verdict result := by
  by_cases hsome : c.components = []
  · exact ⟨_, .empty hsome⟩
  by_cases hfew : c.numNodes < minNodes
  · exact ⟨_, .tooFew hsome hfew⟩
  by_cases hmany : nodeLimit < c.numNodes
  · exact ⟨_, .tooMany hsome (Nat.le_of_not_lt hfew) hmany⟩
  have htwo := Nat.le_of_not_lt hfew
  have hle := Nat.le_of_not_lt hmany
  cases hfloating : c.floating? with
  | none => exact ⟨_, .connected hsome htwo hle ((floating?_eq_none_iff hle).1 hfloating)⟩
  | some n => exact ⟨_, .floating n hsome htwo hle (lowest_of_floating? hle hfloating)⟩

theorem validate_of_verdict (hrange : c.NodesInRange) {result : Outcome α Unit}
    (h : c.Verdict result) : c.validate = result := by
  have hsomeOf : c.components ≠ [] → ¬ c.isEmpty := fun hsome hempty =>
    hsome (List.isEmpty_iff.1 hempty)
  have hin : ¬ (c.components.flatMap Component.nodes).any fun n => c.numNodes ≤ n.number.toNat := by
    intro hany
    obtain ⟨n, hn, hle⟩ := List.any_eq_true.1 hany
    exact Nat.not_lt_of_le (of_decide_eq_true hle) (hrange n hn)
  unfold validate
  cases h with
  | empty hnil => exact if_pos (List.isEmpty_iff.2 hnil)
  | tooFew hsome hfew => rw [if_neg (hsomeOf hsome), if_pos hfew]
  | tooMany hsome htwo hmany =>
    rw [if_neg (hsomeOf hsome), if_neg (Nat.not_lt_of_le htwo), if_pos hmany]
  | floating n hsome htwo hle hn =>
    rw [if_neg (hsomeOf hsome), if_neg (Nat.not_lt_of_le htwo), if_neg (Nat.not_lt_of_le hle),
      if_neg hin, (floating?_eq_some_iff hle).2 hn]
  | connected hsome htwo hle hnone =>
    rw [if_neg (hsomeOf hsome), if_neg (Nat.not_lt_of_le htwo), if_neg (Nat.not_lt_of_le hle),
      if_neg hin, (floating?_eq_none_iff hle).2 hnone]
    rfl

/-- Validation refuses a circuit without components, then one without a node besides ground, then
one with a floating node, and names the lowest of these; it accepts all others. But it has no answer
for a circuit with more nodes than its tables can have. Such a circuit has a floating node, unless
there are nearly as many components. -/
theorem validate_decides (h : ofComponents cs = .ok c)
    (hlast : Node.last ∉ cs.flatMap Component.nodes) :
    (∀ result, c.validate = result ↔ c.Verdict result) ∧
    (3 * c.components.length < nodeLimit → (c.validate = .ok () ↔
      c.components ≠ [] ∧ minNodes ≤ c.numNodes ∧ ∀ n, ¬ c.Floating n)) := by
  have hrange := (nodesInRange_iff h).2 hlast
  obtain ⟨given, hgiven⟩ := c.exists_verdict
  have heq := validate_of_verdict hrange hgiven
  have hiff : ∀ result, c.validate = result ↔ c.Verdict result := fun result =>
    ⟨fun hresult => hresult ▸ heq.symm ▸ hgiven, validate_of_verdict hrange⟩
  refine ⟨hiff, fun hfew => (hiff _).trans ⟨fun hok => ?_, fun ⟨hsome, htwo, hall⟩ => ?_⟩⟩
  · cases hok with
    | connected hsome htwo _ hall => exact ⟨hsome, htwo, hall⟩
  · exact .connected hsome htwo (numNodes_le_of_connected hall hfew) hall

/-- The node that a circuit is refused for. -/
def refusedNode? : Outcome α Unit → Option Node
  | .error (.failed (.floatingNode n)) => some n
  | _ => none

theorem eq_of_refusedNode? {result : Outcome α Unit} {n : Node}
    (h : refusedNode? result = some n) : result = .fail (.floatingNode n) := by
  unfold refusedNode? at h
  split at h
  · cases h
    rfl
  · cases h

/-- A resistor leads from ground to a transistor; another one joins two nodes that are far from
both. -/
def island : List (Component ℚ) :=
  [⟨⟨2⟩, "R2", .resistor ⟨4⟩ ⟨6⟩ 1 .intact⟩, ⟨⟨0⟩, "R0", .resistor ⟨1⟩ .ground 1 .intact⟩,
    ⟨⟨1⟩, "Q1", .mosfet ⟨3⟩ ⟨3⟩ ⟨1⟩ .nmos .standard⟩]

theorem validate_decides_island :
    ∃ c, ofComponents island = .ok c ∧ Node.last ∉ island.flatMap Component.nodes ∧
      3 * c.components.length < nodeLimit ∧ c.validate = .fail (.floatingNode ⟨2⟩) ∧
      c.LowestFloating ⟨2⟩ ∧
      ¬ (c.components ≠ [] ∧ minNodes ≤ c.numNodes ∧ ∀ n, ¬ c.Floating n) := by
  have hlast : Node.last ∉ island.flatMap Component.nodes := by decide +kernel
  obtain ⟨c, hc, hchecked⟩ := exists_ok_of_any (r := ofComponents island)
    (p := fun c => c.components.length == 3 && refusedNode? c.validate == some ⟨2⟩)
    (by decide +kernel)
  obtain ⟨hlength, hfound⟩ := Bool.and_eq_true_iff.1 hchecked
  have hvalid : c.validate = .fail (.floatingNode ⟨2⟩) :=
    eq_of_refusedNode? (eq_of_beq hfound)
  have hfew : 3 * c.components.length < nodeLimit := by
    rw [eq_of_beq hlength]
    decide
  obtain ⟨hverdict, hok⟩ := validate_decides hc hlast
  have hlowest : c.LowestFloating ⟨2⟩ := by
    cases (hverdict _).1 hvalid with
    | floating _ _ _ _ hlowest => exact hlowest
  refine ⟨c, hc, hlast, hfew, hvalid, hlowest, fun hall => ?_⟩
  cases hvalid.symm.trans ((hok hfew).2 hall)

/-- A resistor leads from ground to a node with a large number. -/
def farResistor : List (Component ℚ) :=
  [⟨⟨0⟩, "R0", .resistor .ground ⟨1000000000000000000⟩ 1 .intact⟩]

/-- No component leads to the first node, and still validation does not say so. -/
theorem far_resistor_not_refused :
    ∃ c, ofComponents farResistor = .ok c ∧ Node.last ∉ farResistor.flatMap Component.nodes ∧
      c.components ≠ [] ∧ minNodes ≤ c.numNodes ∧ c.LowestFloating ⟨1⟩ ∧
      c.validate = .misuse .tooManyNodes ∧ c.validate ≠ .fail (.floatingNode ⟨1⟩) := by
  have hlast : Node.last ∉ farResistor.flatMap Component.nodes := by decide +kernel
  obtain ⟨c, hc, hchecked⟩ := exists_ok_of_any (r := ofComponents farResistor)
    (p := fun c => c.numNodes == 1000000000000000001 && !c.grounded.contains ⟨1⟩)
    (by decide +kernel)
  obtain ⟨hcount, hfloating⟩ := Bool.and_eq_true_iff.1 hchecked
  have hcount : c.numNodes = 1000000000000000001 := eq_of_beq hcount
  have hlowest : c.LowestFloating ⟨1⟩ := by
    refine ⟨⟨Nat.one_pos, by rw [hcount]; decide, fun hlinked => ?_⟩, fun n hn => hn.1⟩
    rw [List.contains_iff_mem.2 (mem_grounded_iff.2 hlinked)] at hfloating
    cases hfloating
  have hsome : c.components ≠ [] := fun hnil => by
    have hfew := numNodes_lt_of_isEmpty hc (List.isEmpty_iff.2 hnil)
    rw [hcount] at hfew
    revert hfew
    decide
  have htwo : minNodes ≤ c.numNodes := by rw [hcount]; decide
  have hmany : nodeLimit < c.numNodes := by rw [hcount]; decide
  have hvalid : c.validate = .misuse .tooManyNodes :=
    validate_of_verdict ((nodesInRange_iff hc).2 hlast) (.tooMany hsome htwo hmany)
  refine ⟨c, hc, hlast, hsome, htwo, hlowest, hvalid, ?_⟩
  rw [hvalid]
  nofun

end Nodal.Circuit
