import Nodal.Proofs.Stamps
import Nodal.Transient.Assembly

/-! # How a circuit numbers its components

The components of a circuit stand in strictly increasing order of their ids, and its voltage sources
have the numbers from zero on in that order. When the static equation of the circuit can be built,
every node lies within the equation too. -/

namespace Nodal

namespace Device
variable {α : Type}

@[simp] theorem numSources_assignBranch (b : Branch) (d : Device α) :
    (d.assignBranch b).numSources = d.numSources := by
  cases d <;> rfl

theorem branch?_assignBranch (b : Branch) {d : Device α} (h : d.numSources ≠ 0) :
    (d.assignBranch b).branch? = some b := by
  cases d <;> first | rfl | exact absurd rfl h

theorem numSources_eq_one {d : Device α} (h : d.numSources ≠ 0) : d.numSources = 1 := by
  cases d <;> first | rfl | exact absurd rfl h

theorem branch?_eq_none {d : Device α} (h : d.numSources = 0) : d.branch? = none := by
  cases d <;> first | rfl | exact absurd h Nat.one_ne_zero

theorem numSources_ne_zero {d : Device α} {b : Branch} (hb : d.branch? = some b) :
    d.numSources ≠ 0 := by
  intro h0
  rw [branch?_eq_none h0] at hb
  cases hb

end Device

/-- The nodes of a component, and its branch if it needs one, have a place in the layout. -/
structure Component.Fits {α : Type} (l : Layout) (d : Component α) : Prop where
  nodes_lt : ∀ n ∈ d.device.nodes, n.number.toNat < l.numNodes
  branch : d.device.numSources ≠ 0 → ∃ b, d.device.branch? = some b ∧ b.number < l.numSources

namespace Component.Fits
variable {α : Type} {l : Layout} {d : Component α} {a b c : Node}

theorem pair (h : d.Fits l) (hn : d.device.nodes = [a, b]) :
    a.number.toNat < l.numNodes ∧ b.number.toNat < l.numNodes := by
  have hnodes := h.nodes_lt
  rw [hn] at hnodes
  exact ⟨hnodes a (by simp), hnodes b (by simp)⟩

theorem triple (h : d.Fits l) (hn : d.device.nodes = [a, b, c]) :
    a.number.toNat < l.numNodes ∧ b.number.toNat < l.numNodes ∧ c.number.toNat < l.numNodes := by
  have hnodes := h.nodes_lt
  rw [hn] at hnodes
  exact ⟨hnodes a (by simp), hnodes b (by simp), hnodes c (by simp)⟩

end Component.Fits

namespace Circuit
variable {α : Type}

/-- Components in strictly increasing order of their ids. -/
def InOrder (cs : List (Component α)) : Prop := cs.Pairwise fun c d => c.id.number < d.id.number

theorem insert?_inOrder {c : Component α} {cs cs' : List (Component α)}
    (h : insert? c cs = some cs') (hcs : InOrder cs) : InOrder cs' ∧ cs'.Perm (c :: cs) := by
  induction cs generalizing cs' with
  | nil => cases h; exact ⟨List.pairwise_singleton .., .rfl⟩
  | cons d rest ih =>
    obtain ⟨hd, hrest⟩ := List.pairwise_cons.1 hcs
    rw [insert?] at h
    split at h
    · rename_i hlt
      cases h
      refine ⟨List.pairwise_cons.2 ⟨fun x hx => ?_, hcs⟩, .rfl⟩
      rcases List.mem_cons.1 hx with rfl | hx
      · exact hlt
      · exact hlt.trans (hd x hx)
    · rename_i hnlt
      split at h
      · cases h
      · rename_i hne
        obtain ⟨placed, hplaced, rfl⟩ := Option.map_eq_some_iff.1 h
        obtain ⟨ho, hp⟩ := ih hplaced hrest
        refine ⟨List.pairwise_cons.2 ⟨fun x hx => ?_, ho⟩, (hp.cons d).trans (.swap ..)⟩
        rcases List.mem_cons.1 (hp.mem_iff.1 hx) with rfl | hx
        · have : d.id.number ≠ x.id.number := fun he => hne (by
            rw [ComponentId.mk.injEq] at *; exact he.symm)
          omega
        · exact hd x hx

theorem arrange_inOrder {cs placed : List (Component α)} (h : arrange cs = .ok placed) :
    InOrder placed ∧ placed.Perm cs := by
  refine Outcome.foldlM_induction (P := fun cs placed => InOrder placed ∧ placed.Perm cs)
    ⟨.nil, .nil⟩ ?_ h
  rintro cs placed c next ⟨ho, hp⟩ hnext
  split at hnext
  · rename_i hc
    cases hnext
    obtain ⟨ho', hp'⟩ := insert?_inOrder hc ho
    exact ⟨ho', hp'.trans ((hp.cons c).trans (List.perm_append_singleton c cs).symm)⟩
  · cases hnext

theorem nodup_of_inOrder {cs : List (Component α)} (h : InOrder cs) : (cs.map (·.id)).Nodup := by
  rw [List.Nodup, List.pairwise_map]
  refine h.imp fun {d e} hlt heq => ?_
  rw [heq] at hlt
  exact Nat.lt_irrefl _ hlt

/-- The components with a row for a voltage source, in order. -/
def sources (c : Circuit α) : List (Component α) :=
  c.components.filter fun d => d.device.numSources ≠ 0

/-- Components stand in the order of their ids, and the numbers of their sources go up from zero. -/
structure Numbered (c : Circuit α) : Prop where
  inOrder : InOrder c.components
  branches : c.sources.map (·.device.branch?) =
    (List.range c.numSources).map fun k => some ⟨k⟩

theorem mem_sources {c : Circuit α} {d : Component α} (hd : d ∈ c.components)
    (hs : d.device.numSources ≠ 0) : d ∈ c.sources :=
  List.mem_filter.2 ⟨hd, by simpa using hs⟩

theorem mem_of_source {c : Circuit α} {d : Component α} {k : Nat} (hd : c.sources[k]? = some d) :
    d ∈ c.components :=
  (List.mem_filter.1 (List.mem_of_getElem? hd)).1

/-- Numbering changes nothing of a component that does not depend on its branch. -/
theorem map_numberSources {β : Type} {F : Component α → β}
    (hF : ∀ d b, F { d with device := d.device.assignBranch b } = F d) (next : Nat)
    (cs : List (Component α)) : (numberSources next cs).map F = cs.map F := by
  induction cs generalizing next with
  | nil => rfl
  | cons c cs ih =>
    rw [numberSources]
    split
    · rw [List.map_cons, List.map_cons, ih]
    · rw [List.map_cons, List.map_cons, ih, hF]

theorem branches_numberSources (next : Nat) (cs : List (Component α)) :
    ((numberSources next cs).filter fun d => d.device.numSources ≠ 0).map (·.device.branch?) =
      (List.range' next (countSources cs)).map fun k => some ⟨k⟩ := by
  induction cs generalizing next with
  | nil => rfl
  | cons c cs ih =>
    rw [numberSources, countSources]
    split
    · rename_i h
      rw [List.filter_cons_of_neg (by simpa using h), h, Nat.zero_add, ih]
    · rename_i h
      rw [List.filter_cons_of_pos (by simpa using h), Device.numSources_eq_one h, Nat.add_comm 1,
        List.range'_succ, List.map_cons, List.map_cons, ih, Device.branch?_assignBranch _ h]

/-- What the circuit of some components is made of. -/
theorem ofComponents_eq_ok {cs : List (Component α)} {c : Circuit α} (h : ofComponents cs = .ok c) :
    ∃ placed, arrange cs = .ok placed ∧
      c = ⟨numberSources 0 placed, countNodes placed, countSources placed⟩ := by
  rw [ofComponents] at h
  cases hplaced : arrange cs with
  | error f => rw [hplaced] at h; cases h
  | ok placed =>
    rw [hplaced] at h
    cases h
    exact ⟨placed, rfl, rfl⟩

/-- Every circuit of some components is numbered. -/
theorem numbered_of_ofComponents {cs : List (Component α)} {c : Circuit α}
    (h : ofComponents cs = .ok c) : c.Numbered := by
  obtain ⟨placed, hplaced, rfl⟩ := ofComponents_eq_ok h
  obtain ⟨ho, -⟩ := arrange_inOrder hplaced
  refine ⟨?_, ?_⟩
  · have := List.pairwise_map.2 ho
    rw [← map_numberSources (fun _ _ => rfl) 0 placed] at this
    exact List.pairwise_map.1 this
  · rw [List.range_eq_range']
    exact branches_numberSources 0 placed

namespace Numbered
variable {c : Circuit α}

theorem length_sources (h : c.Numbered) : c.sources.length = c.numSources := by
  have := congrArg List.length h.branches
  simpa using this

theorem branch?_source (h : c.Numbered) {k : Nat} {d : Component α} (hd : c.sources[k]? = some d) :
    d.device.branch? = some ⟨k⟩ := by
  have := congrArg (·[k]?) h.branches
  simp only [List.getElem?_map, hd, Option.map_some] at this
  rw [List.getElem?_range (by
    rw [← h.length_sources]; exact (List.getElem?_eq_some_iff.1 hd).1)] at this
  exact Option.some.inj this

/-- A component that needs a row has one of its own. -/
theorem exists_branch (h : c.Numbered) {d : Component α} (hd : d ∈ c.components)
    (hs : d.device.numSources ≠ 0) :
    ∃ b, d.device.branch? = some b ∧ b.number < c.numSources := by
  obtain ⟨k, hk⟩ := List.getElem?_of_mem (mem_sources hd hs)
  exact ⟨⟨k⟩, h.branch?_source hk, by
    rw [← h.length_sources]; exact (List.getElem?_eq_some_iff.1 hk).1⟩

/-- A component with a row of its own stands at the place of its row among the sources. -/
theorem source_of_branch? (h : c.Numbered) {d : Component α} {b : Branch} (hd : d ∈ c.components)
    (hb : d.device.branch? = some b) : c.sources[b.number]? = some d := by
  obtain ⟨k, hk⟩ := List.getElem?_of_mem (mem_sources hd (Device.numSources_ne_zero hb))
  cases (h.branch?_source hk).symm.trans hb
  exact hk

/-- No two components have the same row. -/
theorem branch?_eq_iff (h : c.Numbered) {k : Nat} {d e : Component α} (hd : c.sources[k]? = some d)
    (he : e ∈ c.components) : e.device.branch? = some ⟨k⟩ ↔ e = d := by
  refine ⟨fun hk => ?_, fun heq => heq ▸ h.branch?_source hd⟩
  exact Option.some.inj ((h.source_of_branch? he hk).symm.trans hd)

/-- What does not stand before a source has no row above that of the source. -/
theorem branch_le_of_split (h : c.Numbered) {d d' : Component α} {k k' : Branch}
    {before after : List (Component α)}
    (hsplit : c.components = before ++ d :: after) (hk : d.device.branch? = some k)
    (hd' : d' ∈ c.components) (hk' : d'.device.branch? = some k') (hnot : d' ∉ before) :
    k.number ≤ k'.number := by
  let rows := before.filter fun e => e.device.numSources ≠ 0
  have hsources : c.sources = rows ++ d :: after.filter fun e => e.device.numSources ≠ 0 := by
    rw [sources, hsplit, List.filter_append,
      List.filter_cons_of_pos (by simpa using Device.numSources_ne_zero hk)]
  have hd : c.sources[rows.length]? = some d := by
    rw [hsources, List.getElem?_append_right (Nat.le_refl _), Nat.sub_self]
    rfl
  cases (h.branch?_source hd).symm.trans hk
  refine Nat.le_of_not_lt fun hlt => hnot ?_
  have hbefore := h.source_of_branch? hd' hk'
  rw [hsources, List.getElem?_append_left hlt] at hbefore
  exact (List.mem_filter.1 (List.mem_of_getElem? hbefore)).1

theorem nodup_ids (h : c.Numbered) : (c.components.map (·.id)).Nodup :=
  nodup_of_inOrder h.inOrder

theorem get?_eq (h : c.Numbered) {d : Component α}
    (hd : d ∈ c.components) : c.get? d.id = some d := by
  rw [get?]
  cases hfind : c.components.find? fun e => e.id = d.id with
  | none => exact absurd (decide_eq_true rfl) (List.find?_eq_none.1 hfind d hd)
  | some e =>
    have hid : e.id = d.id := by simpa using List.find?_some hfind
    rw [List.inj_on_of_nodup_map h.nodup_ids (List.mem_of_find?_eq_some hfind) hd hid]

end Numbered

/-- A circuit whose equation has a layout: its nodes and its sources have their rows there. -/
structure Fits (l : Layout) (c : Circuit α) : Prop where
  numbered : c.Numbered
  numNodes_eq : c.numNodes = l.numNodes
  numSources_eq : c.numSources = l.numSources
  nodes_lt : ∀ d ∈ c.components, ∀ n ∈ d.device.nodes, n.number.toNat < l.numNodes

theorem Fits.component {l : Layout} {c : Circuit α} (h : c.Fits l) {d : Component α}
    (hd : d ∈ c.components) : d.Fits l :=
  ⟨h.nodes_lt d hd, fun hs => by
    obtain ⟨b, hb, hlt⟩ := h.numbered.exists_branch hd hs
    exact ⟨b, hb, h.numSources_eq ▸ hlt⟩⟩

theorem fits_nonlinear {l : Layout} {c : Circuit α} (h : c.Fits l) :
    ∀ d ∈ c.nonlinear, d.Fits l ∧ d.device.isNonlinear := by
  intro d hd
  obtain ⟨hmem, hd⟩ := List.mem_filter.1 hd
  exact ⟨h.component hmem, hd⟩

/-- All nodes that components name are within the count. -/
def NodesInRange (c : Circuit α) : Prop :=
  ∀ n ∈ c.components.flatMap Component.nodes, n.number.toNat < c.numNodes

/-- How the validation of a circuit ends, and why. -/
inductive Validates (c : Circuit α) : Outcome α Unit → Prop
  | empty : c.isEmpty → Validates c (.error (.failed .noCircuit))
  | tooFew : c.numNodes < minNodes →
      Validates c (.error (.failed (.topology (.tooFewNodes c.numNodes))))
  | tooMany : ¬ c.isEmpty → minNodes ≤ c.numNodes → nodeLimit < c.numNodes →
      Validates c (.error (.misuse .tooManyNodes))
  | outOfRange : minNodes ≤ c.numNodes → c.numNodes ≤ nodeLimit → ¬ c.NodesInRange →
      Validates c (.error (.misuse .outOfRange))
  | floating (n : Node) : minNodes ≤ c.numNodes → c.numNodes ≤ nodeLimit → c.NodesInRange →
      Validates c (.error (.failed (.floatingNode n)))
  | valid : minNodes ≤ c.numNodes → c.numNodes ≤ nodeLimit → c.NodesInRange → Validates c (.ok ())

theorem validates (c : Circuit α) : c.Validates c.validate := by
  unfold validate
  split
  · exact .empty ‹_›
  rename_i hempty
  split
  · exact .tooFew ‹_›
  rename_i hfew
  have hfew := Nat.le_of_not_lt hfew
  split
  · exact .tooMany hempty hfew ‹_›
  rename_i hmany
  have hmany := Nat.le_of_not_lt hmany
  split
  · rename_i hany
    obtain ⟨n, hn, hle⟩ := List.any_eq_true.1 hany
    exact .outOfRange hfew hmany fun hrange =>
      Nat.not_lt_of_le (of_decide_eq_true hle) (hrange n hn)
  rename_i hany
  have hrange : c.NodesInRange := fun n hn => by
    by_contra hlt
    exact hany (List.any_eq_true.2 ⟨n, hn, decide_eq_true (Nat.le_of_not_lt hlt)⟩)
  split
  · exact .floating _ hfew hmany hrange
  · exact .valid hfew hmany hrange

theorem nodes_lt_of_validate [Scalar α] {c : Circuit α}
    (h : c.validate = (.ok () : Outcome α Unit)) :
    ∀ d ∈ c.components, ∀ n ∈ d.device.nodes, n.number.toNat < c.numNodes := by
  intro d hd n hn
  have hvalidates := c.validates
  rw [h] at hvalidates
  cases hvalidates with
  | valid _ _ hrange => exact hrange n (List.mem_flatMap.2 ⟨d, hd, hn⟩)

end Circuit

end Nodal
