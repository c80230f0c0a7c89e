import Mathlib.Data.List.Perm.Subperm
import Mathlib.Logic.Relation
import Nodal.Proofs.Numbering

/-! # Chains of components to ground

The search for floating nodes goes from group to group and takes in only nodes that share a group
with one it has, so a chain of components leads from ground to every node it reaches
(`mem_spread`). In a circuit that is accepted it has reached all of them. -/

namespace Nodal.Circuit

/-- Two nodes stand in one of the groups. -/
def Joined (groups : List (List Node)) (m n : Node) : Prop := ∃ g ∈ groups, m ∈ g ∧ n ∈ g

theorem Joined.mono {groups groups' : List (List Node)} (hsub : ∀ g ∈ groups, g ∈ groups')
    {m n : Node} (h : Joined groups m n) : Joined groups' m n := by
  obtain ⟨g, hg, hm, hn⟩ := h
  exact ⟨g, hsub g hg, hm, hn⟩

/-- A node in a group that has a reached node is joined to that one. -/
theorem joined_of_near {groups : List (List Node)} {reached : List Node} {n : Node}
    (h : n ∈ (near groups reached).flatten) : ∃ m ∈ reached, Joined groups m n := by
  obtain ⟨g, hg, hn⟩ := List.mem_flatten.1 h
  obtain ⟨hg, htouches⟩ := List.mem_filter.1 hg
  obtain ⟨m, hm, hreached⟩ := List.any_eq_true.1 htouches
  exact ⟨m, List.contains_iff_mem.1 hreached, g, hg, hm, hn⟩

theorem subset_spread (rounds : Nat) (groups : List (List Node)) (reached : List Node) :
    ∀ n ∈ reached, n ∈ spread rounds groups reached := by
  induction rounds generalizing groups reached with
  | zero => exact fun n hn => hn
  | succ rounds ih =>
    intro n hn
    rw [spread]
    split
    · exact hn
    · exact ih _ _ n (List.mem_append_left _ hn)

/-- A chain of groups leads from one of the first nodes to every node that is reached. -/
theorem mem_spread {rounds : Nat} {groups : List (List Node)} {reached : List Node} {n : Node}
    (h : n ∈ spread rounds groups reached) :
    ∃ m ∈ reached, Relation.ReflTransGen (Joined groups) m n := by
  induction rounds generalizing groups reached with
  | zero => exact ⟨n, h, .refl⟩
  | succ rounds ih =>
    rw [spread] at h
    split at h
    · exact ⟨n, h, .refl⟩
    obtain ⟨m, hm, hchain⟩ := ih h
    -- the groups of later rounds are among those of this one
    have hfar : Joined (far groups reached) ≤ Joined groups := fun _ _ hjoined =>
      hjoined.mono fun g hg => (List.mem_filter.1 hg).1
    have hchain : Relation.ReflTransGen (Joined groups) m n :=
      Relation.ReflTransGen.mono hfar _ _ hchain
    rcases List.mem_append.1 hm with hm | hm
    · exact ⟨m, hm, hchain⟩
    · obtain ⟨k, hk, hjoined⟩ := joined_of_near hm
      exact ⟨k, hk, .head hjoined hchain⟩

variable {α : Type} {c : Circuit α}

/-- Two nodes of one component. -/
def Linked (c : Circuit α) (m n : Node) : Prop := ∃ d ∈ c.components, m ∈ d.nodes ∧ n ∈ d.nodes

theorem linked_of_grounded {n : Node} (h : n ∈ c.grounded) :
    Relation.ReflTransGen c.Linked .ground n := by
  obtain ⟨m, hm, hchain⟩ := mem_spread h
  obtain rfl := List.mem_singleton.1 hm
  have hlinked : Joined (c.components.map Component.nodes) ≤ c.Linked := by
    rintro m n ⟨g, hg, hm, hn⟩
    obtain ⟨d, hd, rfl⟩ := List.mem_map.1 hg
    exact ⟨d, hd, hm, hn⟩
  exact Relation.ReflTransGen.mono hlinked _ _ hchain

theorem node_ofNat_inj {a b : Nat} (ha : a ≤ nodeLimit) (hb : b ≤ nodeLimit)
    (h : (⟨UInt64.ofNat a⟩ : Node) = ⟨UInt64.ofNat b⟩) : a = b := by
  have hlimit : nodeLimit < 2 ^ 64 := by decide
  have h : (UInt64.ofNat a).toNat = (UInt64.ofNat b).toNat :=
    congrArg (fun n : Node => n.number.toNat) h
  rw [UInt64.toNat_ofNat', UInt64.toNat_ofNat'] at h
  rwa [Nat.mod_eq_of_lt (by omega), Nat.mod_eq_of_lt (by omega)] at h

/-- The nodes that follow ground, while they are below the limit. -/
theorem nodup_nodes {n : Nat} (hn : n ≤ nodeLimit) :
    ((List.range' 1 n).map fun k => (⟨UInt64.ofNat k⟩ : Node)).Nodup := by
  refine List.Nodup.map_on ?_ List.nodup_range'
  intro a ha b hb heq
  have ha := List.mem_range'_1.1 ha
  have hb := List.mem_range'_1.1 hb
  exact node_ofNat_inj (by omega) (by omega) heq

/-- When no node is found floating, all nodes up to the highest are connected: those that are looked
at are more than can be connected, unless they are all. -/
theorem grounded_of_floating? (h : c.floating? = none) (hlimit : c.numNodes ≤ nodeLimit) {n : Node}
    (hn : n.number.toNat < c.numNodes) : n ∈ c.grounded := by
  have hreached : ∀ k, 1 ≤ k → k ≤ min (c.numNodes - 1) (c.grounded.length + 1) →
      (⟨UInt64.ofNat k⟩ : Node) ∈ c.grounded := by
    intro k hk hle
    unfold floating? at h
    have hnot := List.find?_eq_none.1 h ⟨UInt64.ofNat k⟩
      (List.mem_map.2 ⟨k, List.mem_range'_1.2 ⟨hk, by omega⟩, rfl⟩)
    simpa using hnot
  have hall : c.numNodes - 1 ≤ c.grounded.length + 1 := by
    by_contra hmore
    have hnodup := nodup_nodes (n := c.grounded.length + 1) (by omega)
    have hsub : ((List.range' 1 (c.grounded.length + 1)).map fun k =>
        (⟨UInt64.ofNat k⟩ : Node)) ⊆ c.grounded := by
      intro m hm
      obtain ⟨k, hk, rfl⟩ := List.mem_map.1 hm
      have hk := List.mem_range'_1.1 hk
      exact hreached k hk.1 (by omega)
    have hle := (List.subperm_of_subset hnodup hsub).length_le
    rw [List.length_map, List.length_range'] at hle
    omega
  by_cases hground : n.number.toNat = 0
  · rw [Node.eq_ground hground]
    exact subset_spread _ _ _ _ List.mem_cons_self
  · have hk := hreached n.number.toNat (by omega) (by omega)
    rwa [UInt64.ofNat_toNat] at hk

/-- In an accepted circuit a chain of components leads from ground to every node. -/
theorem linked_of_validate (h : c.validate = (.ok () : Outcome α Unit)) {n : Node}
    (hn : n.number.toNat < c.numNodes) : Relation.ReflTransGen c.Linked .ground n := by
  unfold validate at h
  split at h
  · cases h
  split at h
  · cases h
  split at h
  · cases h
  rename_i hlimit
  split at h
  · cases h
  split at h
  · cases h
  rename_i hfloating
  exact linked_of_grounded (grounded_of_floating? hfloating (Nat.le_of_not_lt hlimit) hn)

/-! ## Order -/

theorem touches_perm {reached reached' : List Node} (h : reached.Perm reached') :
    touches reached = touches reached' := by
  have hcontains : ∀ n, reached.contains n = reached'.contains n := fun n => by
    rw [Bool.eq_iff_iff, List.contains_iff_mem, List.contains_iff_mem, h.mem_iff]
  funext g
  simp only [touches, hcontains]

/-- What is reached does not depend on the order of the groups, nor on that of the first nodes. -/
theorem spread_perm (rounds : Nat) {groups groups' : List (List Node)}
    {reached reached' : List Node} (hgroups : groups.Perm groups')
    (hreached : reached.Perm reached') :
    (spread rounds groups reached).Perm (spread rounds groups' reached') := by
  induction rounds generalizing groups groups' reached reached' with
  | zero => exact hreached
  | succ rounds ih =>
    have hnear : (near groups reached).Perm (near groups' reached') := by
      rw [near, touches_perm hreached]
      exact hgroups.filter _
    have hfar : (far groups reached).Perm (far groups' reached') := by
      rw [far, touches_perm hreached]
      exact hgroups.filter _
    rw [spread, spread]
    by_cases hnil : near groups reached = []
    · have hnil' : near groups' reached' = [] := (hnil ▸ hnear).symm.eq_nil
      rw [hnil, hnil']
      exact hreached
    · have hnil' : near groups' reached' ≠ [] := fun h => hnil (h ▸ hnear).eq_nil
      rw [if_neg (by simpa using hnil), if_neg (by simpa using hnil')]
      exact ih hfar (hreached.append hnear.flatten)

/-- Validation reads the nodes of the components, in whatever order these are, and the count of
nodes. -/
theorem validate_perm {c c' : Circuit α}
    (hnodes : (c.components.map Component.nodes).Perm (c'.components.map Component.nodes))
    (hcount : c.numNodes = c'.numNodes) : c.validate = c'.validate := by
  have hempty : c.isEmpty = c'.isEmpty := by
    rw [Bool.eq_iff_iff, isEmpty, isEmpty, List.isEmpty_iff, List.isEmpty_iff,
      ← List.map_eq_nil_iff (f := Component.nodes),
      ← List.map_eq_nil_iff (f := Component.nodes) (l := c'.components)]
    exact ⟨fun h => (h ▸ hnodes).symm.eq_nil, fun h => (h ▸ hnodes).eq_nil⟩
  have hgrounded : c.grounded.Perm c'.grounded := by
    rw [grounded, grounded, reachable, reachable, hnodes.length_eq]
    exact spread_perm _ hnodes .rfl
  have hfloating : c.floating? = c'.floating? := by
    have hcontains : ∀ n, c.grounded.contains n = c'.grounded.contains n := fun n => by
      rw [Bool.eq_iff_iff, List.contains_iff_mem, List.contains_iff_mem, hgrounded.mem_iff]
    simp only [floating?, hcount, hgrounded.length_eq, hcontains]
  have hany : ∀ p : Node → Bool, (c.components.flatMap Component.nodes).any p =
      (c'.components.flatMap Component.nodes).any p := fun p => by
    rw [List.flatMap_def, List.flatMap_def, Bool.eq_iff_iff, List.any_eq_true, List.any_eq_true]
    simp only [hnodes.flatten.mem_iff]
  simp only [validate, hempty, hcount, hany, hfloating]

end Nodal.Circuit
