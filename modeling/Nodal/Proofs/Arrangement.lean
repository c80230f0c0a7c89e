import Nodal.Proofs.Loading
import Nodal.Proofs.Relabelling

/-! # The order in which components are given

A circuit sorts its components by their ids and numbers the branches in that order, whatever
branches the components had before. So the circuit depends on which components there are, and not on
the order in which they are given: runs that load the same components in another order are the
same. -/

namespace Nodal
variable {α : Type}

namespace Component

/-- Wires, voltage sources and op-amps have a current of their own to be solved for. -/
def needsRow (d : Component α) : Bool := d.kind ∈ [.wire, .voltageSource, .opAmp]

/-- The component without its branch. -/
def unbranched (d : Component α) : Component α := { d with device := d.device.withBranch none }

theorem numSources_eq_ite (d : Component α) :
    d.device.numSources = if d.needsRow then 1 else 0 := by
  obtain ⟨id, name, device⟩ := d
  cases device <;> rfl

@[simp] theorem nodes_unbranched (d : Component α) : d.unbranched.nodes = d.nodes :=
  d.device.nodes_withBranch none

@[simp] theorem numSources_unbranched (d : Component α) :
    d.unbranched.device.numSources = d.device.numSources :=
  d.device.numSources_withBranch none

theorem unbranched_eq_self {d : Component α} (h : d.device.numSources = 0) : d.unbranched = d := by
  obtain ⟨id, name, device⟩ := d
  cases device <;> first | rfl | cases h

theorem assignBranch_unbranched (d : Component α) (b : Branch) :
    ({ d.unbranched with device := d.unbranched.device.assignBranch b } : Component α) =
      { d with device := d.device.assignBranch b } := by
  obtain ⟨id, name, device⟩ := d
  cases device <;> rfl

theorem unbranched_assignBranch (d : Component α) (b : Branch) :
    unbranched { d with device := d.device.assignBranch b } = d.unbranched := by
  rw [unbranched, unbranched, Device.withBranch_assignBranch]

end Component

namespace Circuit
variable {c : Circuit α} {cs cs' placed : List (Component α)}

/-- What the circuit of some components is: these components in the order of their ids, and the
branches from zero on for those that need one. -/
structure Arranges (cs : List (Component α)) (c : Circuit α) : Prop where
  inOrder : c.components.Pairwise fun d e => d.id.number < e.id.number
  components : (c.components.map Component.unbranched).Perm (cs.map Component.unbranched)
  branches : (c.components.filter Component.needsRow).map (·.device.branch?) =
    (List.range c.numSources).map fun k => some ⟨k⟩
  numSources_eq : c.numSources = cs.countP Component.needsRow

theorem filter_needsRow (c : Circuit α) : c.components.filter Component.needsRow = c.sources := by
  refine List.filter_congr fun d _ => ?_
  rw [d.numSources_eq_ite]
  cases d.needsRow <;> rfl

theorem sum_numSources (cs : List (Component α)) :
    (cs.map fun d => d.device.numSources).sum = cs.countP Component.needsRow := by
  induction cs with
  | nil => rfl
  | cons d cs ih =>
    rw [List.map_cons, List.sum_cons, ih, d.numSources_eq_ite, List.countP_cons, Nat.add_comm]

theorem arranges_of_ofComponents (h : ofComponents cs = .ok c) : c.Arranges cs := by
  have hnumbered := numbered_of_ofComponents h
  refine ⟨hnumbered.inOrder, ?_, ?_, ?_⟩
  · obtain ⟨placed, hplaced, rfl⟩ := ofComponents_eq_ok h
    rw [map_numberSources Component.unbranched_assignBranch]
    exact (arrange_inOrder hplaced).2.map _
  · rw [c.filter_needsRow]
    exact hnumbered.branches
  · rw [numSources_of_ofComponents h, sum_numSources]

/-- A placement that fails has met an id for the second time. -/
theorem place_error {f : Failure α} (horder : InOrder placed)
    (h : cs.foldlM place placed = .error f) :
    ∃ id, f = .topology (.duplicateComponent id) ∧ 2 ≤ ((placed ++ cs).map (·.id)).count id := by
  induction cs generalizing placed with
  | nil => cases h
  | cons d cs ih =>
    rw [List.foldlM_cons, place] at h
    cases hd : insert? d placed with
    | none =>
      rw [hd] at h
      cases h
      have hmem := (insert?_eq_none_iff horder).1 hd
      have hpos := List.count_pos_iff.2 hmem
      refine ⟨d.id, rfl, ?_⟩
      rw [List.map_append, List.count_append, List.map_cons, List.count_cons_self]
      omega
    | some placed' =>
      rw [hd] at h
      obtain ⟨horder', hplaced'⟩ := insert?_inOrder hd horder
      obtain ⟨id, hf, hcount⟩ := ih horder' h
      have hall : (placed' ++ cs).Perm (placed ++ d :: cs) :=
        (hplaced'.append_right cs).trans List.perm_middle.symm
      exact ⟨id, hf, (hall.map (·.id)).count_eq id ▸ hcount⟩

theorem ofComponents_error {f : Failure α} (h : ofComponents cs = .error f) :
    ∃ id, f = .topology (.duplicateComponent id) ∧ 2 ≤ (cs.map (·.id)).count id := by
  cases hplaced : arrange cs with
  | ok placed =>
    rw [ofComponents, hplaced] at h
    cases h
  | error g =>
    rw [ofComponents, hplaced] at h
    cases h
    exact place_error .nil hplaced

/-- A sorted list of components with different ids is known by its members. -/
theorem eq_of_inOrder (h : InOrder cs) (h' : InOrder cs') (hperm : cs.Perm cs') : cs = cs' :=
  List.Perm.eq_of_pairwise (fun _ _ _ _ hlt hgt => absurd hlt (Nat.lt_asymm hgt)) h h' hperm

theorem inOrder_unbranched (h : InOrder cs) : InOrder (cs.map Component.unbranched) :=
  List.pairwise_map.2 h

/-! The branches that components had before make no difference. -/

theorem numberSources_unbranched (next : Nat) (cs : List (Component α)) :
    numberSources next (cs.map Component.unbranched) = numberSources next cs := by
  induction cs generalizing next with
  | nil => rfl
  | cons d cs ih =>
    rw [List.map_cons, numberSources, numberSources, ih, ih, d.numSources_unbranched]
    split
    · rename_i hs
      rw [Component.unbranched_eq_self hs]
    · rw [d.assignBranch_unbranched]

theorem countNodes_unbranched (cs : List (Component α)) :
    countNodes (cs.map Component.unbranched) = countNodes cs :=
  countNodes_congr (by simp only [List.flatMap_map, Component.nodes_unbranched])

theorem countSources_unbranched (cs : List (Component α)) :
    countSources (cs.map Component.unbranched) = countSources cs := by
  simp only [countSources_eq, List.map_map, Function.comp_def, Component.numSources_unbranched]

/-- Neither the order in which components are given nor their branches make a difference to the
circuit. -/
theorem ofComponents_perm (h : (cs'.map Component.unbranched).Perm (cs.map Component.unbranched))
    (hc : ofComponents cs = .ok c) : ofComponents cs' = .ok c := by
  have hids : (cs'.map (·.id)).Perm (cs.map (·.id)) := by
    have := h.map (·.id)
    rwa [List.map_map, List.map_map] at this
  obtain ⟨c', hc'⟩ := exists_ofComponents_iff.2
    (hids.nodup_iff.2 (exists_ofComponents_iff.1 ⟨c, hc⟩))
  obtain ⟨placed, hplaced, rfl⟩ := ofComponents_eq_ok hc
  obtain ⟨placed', hplaced', rfl⟩ := ofComponents_eq_ok hc'
  obtain ⟨horder, hperm⟩ := arrange_inOrder hplaced
  obtain ⟨horder', hperm'⟩ := arrange_inOrder hplaced'
  have hsame : placed'.map Component.unbranched = placed.map Component.unbranched :=
    eq_of_inOrder (inOrder_unbranched horder') (inOrder_unbranched horder)
      ((hperm'.map _).trans (h.trans (hperm.map _).symm))
  rw [hc', ← numberSources_unbranched, ← countNodes_unbranched, ← countSources_unbranched, hsame,
    numberSources_unbranched, countNodes_unbranched, countSources_unbranched]

end Circuit

/-- Descriptions in another order make the same components in another order. -/
theorem ComponentDescription.toComponents_perm {ds ds' : List (ComponentDescription α)}
    {cs : List (Component α)} (h : ds'.Perm ds) (hcs : ds.mapM toComponent = .ok cs) :
    ∃ cs', ds'.mapM toComponent = .ok cs' ∧ cs'.Perm cs := by
  obtain ⟨cs', hcs', hperm⟩ := List.perm_comp_forall₂ h (Outcome.mapM_eq_ok.1 hcs)
  exact ⟨cs', Outcome.mapM_eq_ok.2 hcs', hperm⟩

namespace Simulator
open Circuit
variable [Scalar α]

/-- The calls are the same, or they load the same components in different orders, perhaps with other
branches, and these make up a circuit. -/
inductive Call.Reorders : Call α → Call α → Prop
  | same (call : Call α) : Reorders call call
  | components {cs cs' : List (Component α)} {c : Circuit α} : ofComponents cs = .ok c →
      (cs'.map Component.unbranched).Perm (cs.map Component.unbranched) →
      Reorders (.loadComponents cs) (.loadComponents cs')
  | description {d d' : Description α} {c : Circuit α} : d.toCircuit = .ok c →
      d'.simulation = d.simulation → d'.components.Perm d.components →
      Reorders (.loadDescription d) (.loadDescription d')

theorem loadComponents_perm {cs cs' : List (Component α)} {c : Circuit α}
    (hc : ofComponents cs = .ok c)
    (h : (cs'.map Component.unbranched).Perm (cs.map Component.unbranched)) :
    loadComponents cs' = loadComponents cs := by
  simp only [loadComponents, hc, ofComponents_perm h hc]

theorem loadDescription_perm {d d' : Description α} {c : Circuit α} (hc : d.toCircuit = .ok c)
    (hsimulation : d'.simulation = d.simulation) (h : d'.components.Perm d.components) :
    loadDescription d' = loadDescription d := by
  obtain ⟨cs, hcs, hc⟩ := Outcome.bind_eq_ok.1 hc
  obtain ⟨cs', hcs', hperm⟩ := ComponentDescription.toComponents_perm h hcs
  have hcs' : d'.toComponents = .ok cs' := hcs'
  simp only [loadDescription, hsimulation, hcs, hcs', loadComponents_perm hc (hperm.map _)]

theorem Call.Reorders.perform_eq {call call' : Call α} (h : Call.Reorders call call')
    (budget : Nat) : perform budget call = perform budget call' := by
  cases h with
  | same => rfl
  | components hc hperm => simp only [perform, loadComponents_perm hc hperm]
  | description hc hsimulation hperm =>
    simp only [perform, loadDescription_perm hc hsimulation hperm]

/-- Runs whose loads differ in the order of components have the same transcript. -/
theorem transcript_reorders {calls calls' : List (Nat × Call α)}
    (h : List.Forall₂ (fun p p' => p.1 = p'.1 ∧ Call.Reorders p.2 p'.2) calls calls')
    (s : Simulator α) : transcript calls s = transcript calls' s := by
  induction h generalizing s with
  | nil => rfl
  | @cons p p' calls calls' hp _ ih =>
    obtain ⟨budget, call⟩ := p
    obtain ⟨budget', call'⟩ := p'
    obtain ⟨rfl, hcall⟩ := hp
    simp only [transcript, hcall.perform_eq budget, ih]

/-- Components make up a circuit unless two of them have the same id, which the error then names.
The circuit lists them in the order of their ids with the branches numbered in that order, and it is
the same for every order in which they are given, whatever branches they had before. So are the runs
that load them. -/
theorem circuits_ignore_order :
    (∀ cs : List (Component α), (∃ c, ofComponents cs = .ok c) ↔ (cs.map (·.id)).Nodup) ∧
    (∀ (cs : List (Component α)) f, ofComponents cs = .error f →
      ∃ id, f = .topology (.duplicateComponent id) ∧ 2 ≤ (cs.map (·.id)).count id) ∧
    (∀ (cs : List (Component α)) c, ofComponents cs = .ok c →
      c.Arranges cs ∧ ∀ cs' : List (Component α),
        (cs'.map Component.unbranched).Perm (cs.map Component.unbranched) →
          ofComponents cs' = .ok c) ∧
    ∀ (calls calls' : List (Nat × Call α)) (s : Simulator α),
      List.Forall₂ (fun p p' => p.1 = p'.1 ∧ Call.Reorders p.2 p'.2) calls calls' →
        transcript calls s = transcript calls' s := by
  refine ⟨fun cs => exists_ofComponents_iff, fun cs f hf => ofComponents_error hf,
    fun cs c hc => ⟨arranges_of_ofComponents hc, fun cs' h => ofComponents_perm h hc⟩, ?_⟩
  intro calls calls' s h
  exact transcript_reorders h s

/-- A wire that has been numbered before, a resistor, a source and an op-amp. -/
def shuffled : List (Component ℚ) :=
  [⟨⟨7⟩, "W7", .wire ⟨2⟩ ⟨3⟩ (some ⟨9⟩)⟩,
    ⟨⟨1⟩, "R1", .resistor ⟨1⟩ ⟨2⟩ 2 .intact⟩,
    ⟨⟨3⟩, "V3", .voltageSource .ground ⟨1⟩ (.constant 5) none⟩,
    ⟨⟨5⟩, "U5", .opAmp ⟨1⟩ ⟨3⟩ ⟨4⟩ 1000 none⟩]

theorem circuits_ignore_order_shuffled :
    ∃ c, ofComponents shuffled = .ok c ∧ c.Arranges shuffled ∧
      c.components.map (·.name) = ["R1", "V3", "U5", "W7"] ∧
      c.sources.map (·.device.branch?) = [some ⟨0⟩, some ⟨1⟩, some ⟨2⟩] ∧
      ofComponents shuffled.reverse = .ok c ∧
      (¬ ∃ c', ofComponents (shuffled ++ shuffled) = .ok c') ∧
      ∀ s : Simulator ℚ,
        transcript [(2, .loadComponents shuffled), (2, .start), (2, .advance 10)] s =
          transcript [(2, .loadComponents shuffled.reverse), (2, .start), (2, .advance 10)] s := by
  obtain ⟨hiff, -, harranges, hruns⟩ := circuits_ignore_order (α := ℚ)
  obtain ⟨c, hc⟩ : ∃ c, ofComponents shuffled = .ok c := ⟨_, rfl⟩
  obtain ⟨hc₁, hc₂⟩ := harranges shuffled c hc
  have hreverse := (List.reverse_perm shuffled).map Component.unbranched
  refine ⟨c, hc, hc₁, ?_, ?_, hc₂ _ hreverse, mt (hiff _).1 (by decide), fun s => ?_⟩
  · cases hc
    rfl
  · cases hc
    rfl
  · refine hruns _ _ s (.cons ⟨rfl, .components hc hreverse⟩ ?_)
    exact .cons ⟨rfl, .same _⟩ (.cons ⟨rfl, .same _⟩ .nil)

end Simulator

end Nodal
