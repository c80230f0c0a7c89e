import Nodal.Description.Basic
import Nodal.Proofs.Grounding
import Nodal.Proofs.Ranges

/-! # Circuits with other ids

Two circuits are the same but for ids, names and branches when their components without these are,
up to the order. They have the same counts, pass the same validation, and both have a static
equation or neither has. -/

namespace Nodal
variable {α : Type}

/-! ## Lists that differ in order -/

/-- What holds of entries with the same image carries over to lists with the same images. -/
theorem perm_map_of_perm_map {β γ δ κ : Type} {g : β → κ} {g' : γ → κ} {F : β → δ} {F' : γ → δ}
    {l : List β} {l' : List γ} (h : (l.map g).Perm (l'.map g'))
    (hF : ∀ x ∈ l, ∀ y ∈ l', g x = g' y → F x = F' y) : (l.map F).Perm (l'.map F') := by
  induction l generalizing l' with
  | nil =>
    have hnil : l' = [] := List.map_eq_nil_iff.1 h.nil_eq.symm
    rw [hnil]
    exact .nil
  | cons x l ih =>
    have hmem : g x ∈ l'.map g' := h.subset List.mem_cons_self
    obtain ⟨y, hy, hxy⟩ := List.mem_map.1 hmem
    obtain ⟨s, t, rfl⟩ := List.append_of_mem hy
    have hrest : (l.map g).Perm ((s ++ t).map g') := by
      refine List.Perm.cons_inv (a := g x) (h.trans ?_)
      rw [← hxy, ← List.map_cons]
      exact List.perm_middle.map g'
    have hhead := hF x List.mem_cons_self y hy hxy.symm
    have htail := ih hrest fun z hz w hw => hF z (List.mem_cons_of_mem _ hz) w
      ((List.perm_middle (a := y)).mem_iff.2 (List.mem_cons_of_mem _ hw))
    rw [List.map_cons, hhead]
    exact (htail.cons (F' y)).trans (List.perm_middle.map F').symm

theorem max?_perm {l l' : List Nat} (h : l.Perm l') : l.max? = l'.max? := by
  cases hmax : l'.max? with
  | none =>
    rw [List.max?_eq_none_iff] at hmax ⊢
    rw [hmax] at h
    exact h.eq_nil
  | some m =>
    obtain ⟨hmem, hle⟩ := List.max?_eq_some_iff.1 hmax
    exact List.max?_eq_some_iff.2 ⟨h.mem_iff.2 hmem, fun b hb => hle b (h.mem_iff.1 hb)⟩

/-! ## Components -/

namespace Device

/-- Gives another branch, or none, to a device that needs one. -/
def withBranch (branch : Option Branch) : Device α → Device α
  | wire a b _ => wire a b branch
  | voltageSource a b waveform _ => voltageSource a b waveform branch
  | opAmp plus minus output gain _ => opAmp plus minus output gain branch
  | d => d

@[simp] theorem nodes_withBranch (branch : Option Branch) (d : Device α) :
    (d.withBranch branch).nodes = d.nodes := by
  cases d <;> rfl

@[simp] theorem numSources_withBranch (branch : Option Branch) (d : Device α) :
    (d.withBranch branch).numSources = d.numSources := by
  cases d <;> rfl

@[simp] theorem numCurrents_withBranch (branch : Option Branch) (d : Device α) :
    (d.withBranch branch).numCurrents = d.numCurrents := by
  cases d <;> rfl

@[simp] theorem isNonlinear_withBranch (branch : Option Branch) (d : Device α) :
    (d.withBranch branch).isNonlinear = d.isNonlinear := by
  cases d <;> rfl

theorem withBranch_withBranch (branch branch' : Option Branch) (d : Device α) :
    (d.withBranch branch').withBranch branch = d.withBranch branch := by
  cases d <;> rfl

theorem withBranch_branch? (d : Device α) : d.withBranch d.branch? = d := by
  cases d <;> rfl

theorem withBranch_assignBranch (branch : Option Branch) (b : Branch) (d : Device α) :
    (d.assignBranch b).withBranch branch = d.withBranch branch := by
  cases d <;> rfl

/-- Devices that are the same without their branches differ in these alone. -/
theorem eq_withBranch {d d' : Device α} (h : d.withBranch none = d'.withBranch none) :
    d' = d.withBranch d'.branch? := by
  rw [← withBranch_withBranch _ none d, h, withBranch_withBranch, withBranch_branch?]

end Device

namespace Component

/-- The component with the id that `f` gives it, without its name and its branch. -/
def relabelled (f : ComponentId → ComponentId) (d : Component α) : Component α :=
  ⟨f d.id, "", d.device.withBranch none⟩

/-- The component without its name and its branch. -/
def unlabelled (d : Component α) : Component α := d.relabelled fun i => i

/-- The second component is the first one with the id that `f` gives it, and perhaps with another
name and branch. -/
structure Relabels (f : ComponentId → ComponentId) (d d' : Component α) : Prop where
  id_eq : d'.id = f d.id
  device_eq : d'.device = d.device.withBranch d'.device.branch?

variable {f : ComponentId → ComponentId} {d d' : Component α}

theorem relabels_of_relabelled (h : d.relabelled f = d'.unlabelled) : Relabels f d d' := by
  rw [unlabelled, relabelled, relabelled, mk.injEq] at h
  obtain ⟨hid, -, hdevice⟩ := h
  exact ⟨hid.symm, Device.eq_withBranch hdevice⟩

namespace Relabels

/-- The device of the first component, from that of the second. -/
theorem device_eq_withBranch (h : Relabels f d d') :
    d.device = d'.device.withBranch d.device.branch? := by
  rw [h.device_eq, Device.withBranch_withBranch, Device.withBranch_branch?]

theorem nodes_eq (h : Relabels f d d') : d'.nodes = d.nodes := by
  rw [nodes, h.device_eq, Device.nodes_withBranch, nodes]

theorem numSources_eq (h : Relabels f d d') : d'.device.numSources = d.device.numSources := by
  rw [h.device_eq, Device.numSources_withBranch]

theorem numCurrents_eq (h : Relabels f d d') : d'.device.numCurrents = d.device.numCurrents := by
  rw [h.device_eq, Device.numCurrents_withBranch]

theorem isNonlinear_eq (h : Relabels f d d') : d'.isNonlinear = d.isNonlinear := by
  rw [isNonlinear, h.device_eq, Device.isNonlinear_withBranch, isNonlinear]

end Relabels

end Component

/-! ## Arranging components -/

namespace Circuit
variable {c c' : Circuit α} {cs cs' : List (Component α)} {f : ComponentId → ComponentId}

/-- A component finds its place unless its id is taken. -/
theorem insert?_eq_none_iff {d : Component α} (h : InOrder cs) :
    insert? d cs = none ↔ d.id ∈ cs.map (·.id) := by
  induction cs with
  | nil => exact iff_of_false (Option.some_ne_none _) List.not_mem_nil
  | cons e cs ih =>
    obtain ⟨he, hcs⟩ := List.pairwise_cons.1 h
    rw [insert?, List.map_cons, List.mem_cons]
    split
    · rename_i hlt
      refine iff_of_false (Option.some_ne_none _) ?_
      rintro (heq | hmem)
      · rw [heq] at hlt
        exact Nat.lt_irrefl _ hlt
      · obtain ⟨x, hx, heq⟩ := List.mem_map.1 hmem
        have := hlt.trans (he x hx)
        rw [heq] at this
        exact Nat.lt_irrefl _ this
    split
    · rename_i heq
      exact iff_of_true rfl (.inl heq)
    · rename_i hne
      rw [Option.map_eq_none_iff, ih hcs, or_iff_right hne]

/-- Puts a component in its place, unless its id is taken. -/
def place (placed : List (Component α)) (d : Component α) :
    Except (Failure α) (List (Component α)) :=
  match insert? d placed with
  | some placed => .ok placed
  | none => .error (.topology (.duplicateComponent d.id))

theorem exists_placed {placed : List (Component α)} (horder : InOrder placed)
    (hnodup : ((placed ++ cs).map (·.id)).Nodup) : ∃ all, cs.foldlM place placed = .ok all := by
  induction cs generalizing placed with
  | nil => exact ⟨placed, rfl⟩
  | cons d cs ih =>
    rw [List.foldlM_cons, place]
    have hperm : (placed ++ d :: cs).Perm (d :: (placed ++ cs)) := List.perm_middle
    cases hd : insert? d placed with
    | none =>
      have hmem := (insert?_eq_none_iff horder).1 hd
      have hfresh := (List.nodup_cons.1 ((hperm.map (·.id)).nodup_iff.1 hnodup)).1
      rw [List.map_append, List.mem_append] at hfresh
      exact absurd (.inl hmem) hfresh
    | some placed' =>
      obtain ⟨horder', hplaced'⟩ := insert?_inOrder hd horder
      refine ih horder' ?_
      have hall : (placed' ++ cs).Perm (placed ++ d :: cs) :=
        (hplaced'.append_right cs).trans hperm.symm
      exact (hall.map (·.id)).nodup_iff.2 hnodup

/-- Components make up a circuit when no two have the same id. -/
theorem exists_ofComponents_iff :
    (∃ c, ofComponents cs = .ok c) ↔ (cs.map (·.id)).Nodup := by
  constructor
  · rintro ⟨c, hc⟩
    obtain ⟨placed, hplaced, -⟩ := ofComponents_eq_ok hc
    obtain ⟨horder, hperm⟩ := arrange_inOrder hplaced
    exact (hperm.map (·.id)).nodup_iff.1 (nodup_of_inOrder horder)
  · intro hnodup
    obtain ⟨placed, hplaced⟩ := exists_placed .nil hnodup
    have hplaced : arrange cs = .ok placed := hplaced
    exact ⟨_, by rw [ofComponents, hplaced]; rfl⟩

theorem countSources_eq (cs : List (Component α)) :
    countSources cs = (cs.map fun d => d.device.numSources).sum := by
  induction cs with
  | nil => rfl
  | cons d cs ih => rw [countSources, ih, List.map_cons, List.sum_cons]

/-- A circuit has as many rows for voltage sources as its components need. -/
theorem numSources_of_ofComponents (h : ofComponents cs = .ok c) :
    c.numSources = (cs.map fun d => d.device.numSources).sum := by
  obtain ⟨placed, hplaced, rfl⟩ := ofComponents_eq_ok h
  obtain ⟨-, hperm⟩ := arrange_inOrder hplaced
  show countSources placed = _
  rw [countSources_eq, (hperm.map _).sum_nat]

theorem countNodes_perm (h : (cs.map Component.nodes).Perm (cs'.map Component.nodes)) :
    countNodes cs = countNodes cs' := by
  rw [countNodes, countNodes, List.flatMap_def, List.flatMap_def, max?_perm (h.flatten.map _)]

/-- The circuits are the same but for the ids, which `f` relates, the names and the branches. -/
structure Relabels (f : ComponentId → ComponentId) (c c' : Circuit α) : Prop where
  numbered : c.Numbered
  numbered' : c'.Numbered
  components : (c.components.map (Component.relabelled f)).Perm
    (c'.components.map Component.unlabelled)
  numNodes_eq : c'.numNodes = c.numNodes
  numSources_eq : c'.numSources = c.numSources

/-- A circuit lists its components as they are given but for the order and the branches. -/
theorem relabelled_of_ofComponents (h : ofComponents cs = .ok c) (f : ComponentId → ComponentId) :
    (c.components.map (Component.relabelled f)).Perm (cs.map (Component.relabelled f)) := by
  obtain ⟨placed, hplaced, rfl⟩ := ofComponents_eq_ok h
  obtain ⟨-, hperm⟩ := arrange_inOrder hplaced
  rw [map_numberSources fun d b => ?_]
  · exact hperm.map _
  · rw [Component.relabelled, Component.relabelled, Device.withBranch_assignBranch]

theorem linear_of_ofComponents (h : ofComponents cs = .ok c)
    (hlinear : ∀ d ∈ cs, d.isNonlinear = false) : c.hasNonlinear = false := by
  refine List.any_eq_false.2 fun d hd => ?_
  have hmem := (relabelled_of_ofComponents h fun i => i).subset (List.mem_map_of_mem hd)
  obtain ⟨d', hd', heq⟩ := List.mem_map.1 hmem
  rw [(Component.relabels_of_relabelled heq).isNonlinear_eq, hlinear d' hd']
  exact Bool.false_ne_true

theorem relabels_of_ofComponents (hc : ofComponents cs = .ok c) (hc' : ofComponents cs' = .ok c')
    (h : (cs.map (Component.relabelled f)).Perm (cs'.map Component.unlabelled)) :
    Relabels f c c' := by
  have hsame : (c.components.map (Component.relabelled f)).Perm
      (c'.components.map Component.unlabelled) :=
    (relabelled_of_ofComponents hc f).trans
      (h.trans (relabelled_of_ofComponents hc' fun i => i).symm)
  refine ⟨numbered_of_ofComponents hc, numbered_of_ofComponents hc', hsame, ?_, ?_⟩
  · rw [(nodes_of_ofComponents hc).1, (nodes_of_ofComponents hc').1]
    refine (countNodes_perm (perm_map_of_perm_map hsame fun d _ d' _ heq => ?_)).symm
    exact (Component.relabels_of_relabelled heq).nodes_eq.symm
  · rw [numSources_of_ofComponents hc, numSources_of_ofComponents hc']
    refine (perm_map_of_perm_map h fun d _ d' _ heq => ?_).sum_nat.symm
    exact (Component.relabels_of_relabelled heq).numSources_eq.symm

theorem isNonlinear_of_mem {d : Component α} (h : c.hasNonlinear = false) (hd : d ∈ c.components) :
    d.isNonlinear = false := by
  simpa using List.any_eq_false.1 h d hd

namespace Relabels

/-- The component that has the place of `d` in the other circuit. -/
theorem exists_partner (h : Relabels f c c') {d : Component α} (hd : d ∈ c.components) :
    ∃ d' ∈ c'.components, Component.Relabels f d d' := by
  have hmem := h.components.subset (List.mem_map_of_mem hd)
  obtain ⟨d', hd', heq⟩ := List.mem_map.1 hmem
  exact ⟨d', hd', Component.relabels_of_relabelled heq.symm⟩

/-- The component whose place `d'` has in the other circuit. -/
theorem exists_original (h : Relabels f c c') {d' : Component α} (hd' : d' ∈ c'.components) :
    ∃ d ∈ c.components, Component.Relabels f d d' := by
  have hmem := h.components.symm.subset (List.mem_map_of_mem hd')
  obtain ⟨d, hd, heq⟩ := List.mem_map.1 hmem
  exact ⟨d, hd, Component.relabels_of_relabelled heq⟩

/-- What is the same for each component and its partner is the same for the circuits, up to the
order. -/
theorem perm_map {β : Type} {F F' : Component α → β} (h : Relabels f c c')
    (hF : ∀ d ∈ c.components, ∀ d' ∈ c'.components, Component.Relabels f d d' → F d = F' d') :
    (c.components.map F).Perm (c'.components.map F') :=
  perm_map_of_perm_map h.components fun d hd d' hd' heq =>
    hF d hd d' hd' (Component.relabels_of_relabelled heq)

theorem validate_eq (h : Relabels f c c') : c.validate = c'.validate :=
  validate_perm (h.perm_map fun _ _ _ _ hd => hd.nodes_eq.symm) h.numNodes_eq.symm

theorem hasNonlinear_eq (h : Relabels f c c') : c'.hasNonlinear = c.hasNonlinear := by
  rw [Bool.eq_iff_iff, hasNonlinear, hasNonlinear, List.any_eq_true, List.any_eq_true]
  constructor
  · rintro ⟨d', hd', hnonlinear⟩
    obtain ⟨d, hd, hrelabels⟩ := h.exists_original hd'
    exact ⟨d, hd, hrelabels.isNonlinear_eq ▸ hnonlinear⟩
  · rintro ⟨d, hd, hnonlinear⟩
    obtain ⟨d', hd', hrelabels⟩ := h.exists_partner hd
    exact ⟨d', hd', hrelabels.isNonlinear_eq.symm ▸ hnonlinear⟩

end Relabels

end Circuit

/-! ## The static equation -/

section Checks
variable [Scalar α]

theorem requirePositive_congr {component parameter : String} {v : α} (component' : String)
    (h : requirePositive component parameter v = .ok ()) :
    requirePositive component' parameter v = .ok () := by
  unfold requirePositive at h ⊢
  split at h
  · exact if_pos ‹_›
  · cases h

theorem requireFinite_congr {component parameter : String} {v : α} (component' : String)
    (h : requireFinite component parameter v = .ok ()) :
    requireFinite component' parameter v = .ok () := by
  unfold requireFinite at h ⊢
  split at h
  · exact if_pos ‹_›
  · cases h

/-- A linear component passes its check when it has its branch and another one with the same device
passes. -/
theorem Component.check_congr {d d' : Component α} (hlinear : d.isNonlinear = false)
    (hdevice : d'.device = d.device.withBranch d'.device.branch?)
    (hbranch : d'.device.numSources ≠ 0 → ∃ b, d'.device.branch? = some b)
    (hcheck : d.check = .ok ()) : d'.check = .ok () := by
  obtain ⟨id, name, device⟩ := d
  obtain ⟨id', name', device'⟩ := d'
  simp only at hdevice hbranch
  rw [hdevice, Device.numSources_withBranch, ← hdevice] at hbranch
  rw [hdevice]
  cases device with
  | resistor a b resistance fault => exact requirePositive_congr _ hcheck
  | capacitor a b capacitance => exact requirePositive_congr _ hcheck
  | inductor a b inductance => exact requirePositive_congr _ hcheck
  | currentSource a b current => rfl
  | wire a b branch =>
    obtain ⟨k, hk⟩ := hbranch Nat.one_ne_zero
    rw [hk]
    rfl
  | voltageSource a b waveform branch =>
    obtain ⟨k, hk⟩ := hbranch Nat.one_ne_zero
    rw [hk]
    simp only [Device.withBranch, check]
    split <;> rfl
  | opAmp plus minus output gain branch =>
    obtain ⟨k, hk⟩ := hbranch Nat.one_ne_zero
    have hfinite : requireFinite name "gain" gain = .ok () := by
      cases hgain : requireFinite name "gain" gain with
      | ok u => rfl
      | error f =>
        simp only [check, hgain] at hcheck
        cases hcheck
    rw [hk]
    simp only [Device.withBranch, check, requireFinite_congr name' hfinite]
    rfl
  | diode anode cathode params => cases hlinear
  | mosfet drain gate source channel params => cases hlinear

end Checks

/-- Both computations have a result, or both end with errors that callers handle, or both in the
same way without an answer. -/
inductive EndAlike {β γ : Type} : Outcome α β → Outcome α γ → Prop
  | ok (b : β) (c : γ) : EndAlike (.ok b) (.ok c)
  | failed (f g : Failure α) : EndAlike (.error (.failed f)) (.error (.failed g))
  | halted (halt : Halt α) : EndAlike (.error halt) (.error halt)

namespace Circuit
variable [Scalar α] {c c' : Circuit α} {f : ComponentId → ComponentId}

/-- The components of both circuits pass their checks, or some of each do not. -/
theorem Relabels.checks_iff (h : Relabels f c c') (hlinear : c.hasNonlinear = false) :
    (∀ d ∈ c.components, d.check = .ok ()) ↔ ∀ d' ∈ c'.components, d'.check = .ok () := by
  constructor
  · intro hchecks d' hd'
    obtain ⟨d, hd, hrelabels⟩ := h.exists_original hd'
    refine Component.check_congr (isNonlinear_of_mem hlinear hd) hrelabels.device_eq (fun hs => ?_)
      (hchecks d hd)
    obtain ⟨b, hb, -⟩ := h.numbered'.exists_branch hd' hs
    exact ⟨b, hb⟩
  · intro hchecks d hd
    obtain ⟨d', hd', hrelabels⟩ := h.exists_partner hd
    refine Component.check_congr (isNonlinear_of_mem (h.hasNonlinear_eq.trans hlinear) hd')
      hrelabels.device_eq_withBranch (fun hs => ?_) (hchecks d' hd')
    obtain ⟨b, hb, -⟩ := h.numbered.exists_branch hd hs
    exact ⟨b, hb⟩

/-- The static equations of linear circuits that differ in ids, names and branches end alike. -/
theorem Relabels.staticEquation (h : Relabels f c c') (hlinear : c.hasNonlinear = false) :
    EndAlike c.staticEquation c'.staticEquation := by
  cases hvalid : (c.validate : Outcome α Unit) with
  | error halt =>
    have hvalid' : c'.validate = .error halt := h.validate_eq ▸ hvalid
    rw [Circuit.staticEquation, Circuit.staticEquation, hvalid, hvalid']
    exact .halted halt
  | ok u =>
    have hvalid' : c'.validate = (.ok () : Outcome α Unit) := h.validate_eq ▸ hvalid
    cases hblank : (Equation.blank c.numNodes c.numSources : Outcome α (Equation α)) with
    | error halt =>
      rw [Circuit.staticEquation, Circuit.staticEquation, hvalid, hvalid', h.numNodes_eq,
        h.numSources_eq, Outcome.ok_bind, Outcome.ok_bind, hblank]
      exact .halted halt
    | ok blank =>
      have hblank' : Equation.blank c'.numNodes c'.numSources = .ok blank := by
        rw [h.numNodes_eq, h.numSources_eq, hblank]
      have hchecks := h.checks_iff hlinear
      obtain ⟨e, he⟩ | ⟨d, hd, f, hf, he⟩ := staticEquation_or_check h.numbered hvalid hblank <;>
        obtain ⟨e', he'⟩ | ⟨d', hd', f', hf', he'⟩ :=
          staticEquation_or_check h.numbered' hvalid' hblank'
      · rw [he, he']
        exact .ok e e'
      · obtain ⟨l, blank, hpart⟩ := staticPart h.numbered he
        cases (hchecks.1 hpart.checks d' hd').symm.trans hf'
      · obtain ⟨l, blank, hpart⟩ := staticPart h.numbered' he'
        cases (hchecks.2 hpart.checks d hd).symm.trans hf
      · rw [he, he']
        exact .failed f f'

end Circuit

/-! ## Ids and descriptions -/

/-- Other ids that keep different ids apart leave as many components with the same id as before. -/
theorem nodup_ids_iff {f : ComponentId → ComponentId} {cs cs' : List (Component α)}
    (hf : ∀ d ∈ cs, ∀ e ∈ cs, f d.id = f e.id → d.id = e.id)
    (h : (cs.map (Component.relabelled f)).Perm (cs'.map Component.unlabelled)) :
    (cs.map (·.id)).Nodup ↔ (cs'.map (·.id)).Nodup := by
  have hids : ((cs.map (·.id)).map f).Perm (cs'.map (·.id)) := by
    rw [List.map_map]
    refine perm_map_of_perm_map h fun d _ d' _ heq => ?_
    exact (Component.relabels_of_relabelled heq).id_eq.symm
  rw [← hids.nodup_iff]
  constructor
  · intro hnodup
    refine hnodup.map_on fun i hi j hj heq => ?_
    obtain ⟨d, hd, rfl⟩ := List.mem_map.1 hi
    obtain ⟨e, he, rfl⟩ := List.mem_map.1 hj
    exact hf d hd e he heq
  · exact List.Nodup.of_map f

namespace ComponentDescription

/-- The description with the id that `f` gives it, without a name. -/
def relabelled (f : ComponentId → ComponentId) (d : ComponentDescription α) :
    ComponentDescription α :=
  { d with id := f d.id, name := none }

/-- The description without a name. -/
def unlabelled (d : ComponentDescription α) : ComponentDescription α := d.relabelled fun i => i

/-- The component that a description makes, under the id that `f` gives it. -/
def relabelled? (f : ComponentId → ComponentId) (d : ComponentDescription α) :
    Option (Component α) :=
  d.device?.map fun device => ⟨f d.id, "", device.withBranch none⟩

theorem relabelled?_eq {f : ComponentId → ComponentId} {d d' : ComponentDescription α}
    (h : d.relabelled f = d'.unlabelled) : d.relabelled? f = d'.relabelled? fun i => i := by
  obtain ⟨id, name, nodes, parameters⟩ := d
  obtain ⟨id', name', nodes', parameters'⟩ := d'
  simp only [unlabelled, relabelled, mk.injEq] at h
  obtain ⟨hid, -, rfl, rfl⟩ := h
  rw [relabelled?, relabelled?, hid]
  rfl

theorem isNonlinear_of_device? {d : ComponentDescription α} {device : Device α}
    (hkind : d.parameters.kind ∉ [.diode, .mosfet]) (h : d.device? = some device) :
    device.isNonlinear = false := by
  obtain ⟨id, name, nodes, parameters⟩ := d
  simp only [device?] at h
  split at h
  all_goals
    cases h
  all_goals
    first
    | rfl
    | exact absurd (by simp [Parameters.kind]) hkind

/-- The component is the one that the description makes. -/
def Makes (d : ComponentDescription α) (c : Component α) : Prop :=
  c.id = d.id ∧ d.device? = some c.device

theorem Makes.relabelled?_eq {d : ComponentDescription α} {c : Component α} (h : d.Makes c)
    (f : ComponentId → ComponentId) : d.relabelled? f = some (c.relabelled f) := by
  obtain ⟨hid, hdevice⟩ := h
  rw [relabelled?, hdevice, Component.relabelled, hid]
  rfl

/-- Descriptions make their components one by one, unless one of them makes none. -/
theorem toComponents_cases (ds : List (ComponentDescription α)) :
    (∃ cs, ds.mapM toComponent = .ok cs ∧ List.Forall₂ Makes ds cs) ∨
    (∃ g, ds.mapM toComponent = .error g) ∧ ∃ d ∈ ds, d.device? = none := by
  induction ds with
  | nil => exact .inl ⟨[], rfl, .nil⟩
  | cons d ds ih =>
    rw [List.mapM_cons]
    cases hdevice : d.device? with
    | none =>
      obtain ⟨g, hg⟩ : ∃ g, d.toComponent = .error g := ⟨_, by rw [toComponent, hdevice]⟩
      exact .inr ⟨⟨g, by rw [hg]; rfl⟩, d, List.mem_cons_self, hdevice⟩
    | some device =>
      have hone : d.toComponent = .ok ⟨d.id, d.displayName, device⟩ := by
        rw [toComponent, hdevice]
      rw [hone]
      rcases ih with ⟨cs, hcs, hmakes⟩ | ⟨⟨g, hg⟩, e, he, hnone⟩
      · exact .inl ⟨_, by rw [hcs]; rfl, .cons ⟨rfl, hdevice⟩ hmakes⟩
      · exact .inr ⟨⟨g, by rw [hg]; rfl⟩, e, List.mem_cons_of_mem _ he, hnone⟩

theorem makes_of_toComponents {ds : List (ComponentDescription α)} {cs : List (Component α)}
    (h : ds.mapM toComponent = .ok cs) : List.Forall₂ Makes ds cs := by
  rcases toComponents_cases ds with ⟨cs', hcs', hmakes⟩ | ⟨⟨g, hg⟩, -⟩
  · cases hcs'.symm.trans h
    exact hmakes
  · cases hg.symm.trans h

theorem exists_makes {ds : List (ComponentDescription α)} {cs : List (Component α)}
    (h : List.Forall₂ Makes ds cs) : ∀ c ∈ cs, ∃ d ∈ ds, d.Makes c := by
  induction h with
  | nil => nofun
  | cons hd _ ih =>
    refine List.forall_mem_cons.2 ⟨⟨_, List.mem_cons_self, hd⟩, fun c hc => ?_⟩
    obtain ⟨d, hd, hmakes⟩ := ih c hc
    exact ⟨d, List.mem_cons_of_mem _ hd, hmakes⟩

theorem map_relabelled? {ds : List (ComponentDescription α)} {cs : List (Component α)}
    (h : List.Forall₂ Makes ds cs) (f : ComponentId → ComponentId) :
    ds.map (relabelled? f) = cs.map fun c => some (c.relabelled f) := by
  induction h with
  | nil => rfl
  | cons hd _ ih => rw [List.map_cons, List.map_cons, hd.relabelled?_eq, ih]

/-- Descriptions that are the same but for ids and names make components that are, or none. -/
theorem toComponents_relabelled {f : ComponentId → ComponentId}
    {ds ds' : List (ComponentDescription α)}
    (h : (ds.map (relabelled f)).Perm (ds'.map unlabelled)) :
    (∃ cs cs', ds.mapM toComponent = .ok cs ∧ ds'.mapM toComponent = .ok cs' ∧
      (cs.map (Component.relabelled f)).Perm (cs'.map Component.unlabelled)) ∨
    ∃ g g', ds.mapM toComponent = .error g ∧ ds'.mapM toComponent = .error g' := by
  have hmade : (ds.map (relabelled? f)).Perm (ds'.map (relabelled? fun i => i)) :=
    perm_map_of_perm_map h fun d _ d' _ heq => relabelled?_eq heq
  have hnone : ∀ {f} {ds : List (ComponentDescription α)} {d : ComponentDescription α}, d ∈ ds →
      d.device? = none → none ∈ ds.map (relabelled? f) := by
    intro f ds d hd hdevice
    exact List.mem_map.2 ⟨d, hd, by rw [relabelled?, hdevice]; rfl⟩
  rcases toComponents_cases ds with ⟨cs, hcs, hmakes⟩ | ⟨⟨g, hg⟩, d, hd, hdevice⟩ <;>
    rcases toComponents_cases ds' with ⟨cs', hcs', hmakes'⟩ | ⟨⟨g', hg'⟩, d', hd', hdevice'⟩
  · rw [map_relabelled? hmakes, map_relabelled? hmakes'] at hmade
    exact .inl ⟨cs, cs', hcs, hcs', perm_map_of_perm_map hmade fun _ _ _ _ => Option.some.inj⟩
  · have hmem := hmade.symm.subset (hnone hd' hdevice')
    rw [map_relabelled? hmakes] at hmem
    obtain ⟨c, -, hc⟩ := List.mem_map.1 hmem
    cases hc
  · have hmem := hmade.subset (hnone hd hdevice)
    rw [map_relabelled? hmakes'] at hmem
    obtain ⟨c, -, hc⟩ := List.mem_map.1 hmem
    cases hc
  · exact .inr ⟨g, g', hg, hg'⟩

end ComponentDescription

end Nodal
