import Nodal.Proofs.Contributions

/-! # The equation of a tick

After the stamps of a tick the defect of every row is the sum of what the linear components
contribute (`Circuit.Stamped`), each in the state that the tick would store. -/

namespace Nodal

theorem lookup_filterMap {α β : Type} {f : Component α → Option β} {cs : List (Component α)}
    (hnd : (cs.map (·.id)).Nodup) {d : Component α} (hd : d ∈ cs) :
    (cs.filterMap fun d => (f d).map (d.id, ·)).lookup d.id = f d := by
  induction cs with
  | nil => cases hd
  | cons c cs ih =>
    rw [List.map_cons, List.nodup_cons] at hnd
    have hfresh : (cs.filterMap fun d => (f d).map (d.id, ·)).lookup c.id = none := by
      rw [List.lookup_eq_none_iff]
      intro p hp
      obtain ⟨e, he, hep⟩ := List.mem_filterMap.1 hp
      obtain ⟨v, -, rfl⟩ := Option.map_eq_some_iff.1 hep
      simp only [bne_iff_ne, ne_eq]
      exact fun heq => hnd.1 (List.mem_map.2 ⟨e, he, heq.symm⟩)
    rcases List.mem_cons.1 hd with rfl | hd
    · rw [List.filterMap_cons]
      cases hf : f d with
      | none => simpa [hf] using hfresh
      | some v => simp
    · have hne : d.id ≠ c.id := fun heq => hnd.1 (List.mem_map.2 ⟨d, hd, heq⟩)
      rw [List.filterMap_cons]
      cases hf : f c with
      | none => simpa [hf] using ih hnd.2 hd
      | some v => simpa [hf, List.lookup_cons, beq_false_of_ne hne] using ih hnd.2 hd

/-- What is kept of each component is found under its id. -/
theorem Circuit.Numbered.get?_map {α : Type} {c : Circuit α} (h : c.Numbered)
    (shown : Component α → ComponentState α) {d : Component α} (hd : d ∈ c.components) :
    CircuitState.get? (c.components.map fun d => (d.id, shown d)) d.id = some (shown d) := by
  have hlookup := lookup_filterMap (f := fun d => some (shown d)) h.nodup_ids hd
  rwa [← List.filterMap_eq_map, CircuitState.get?]

variable {α : Type} [ExactScalar α]

open Stamping

namespace Circuit

/-- The companion of a component in a tick after some state. -/
def companionOf (timestep : α) (previous : CircuitState α) (d : Component α) :
    Option (Companion α) :=
  d.companion? timestep ((previous.get? d.id).getD .empty)

/-- What a component shows after a tick with the solution `x`. -/
def stateOf (c : Circuit α) (timestep : α) (previous : CircuitState α) (x : List α)
    (d : Component α) : ComponentState α :=
  d.tickState ⟨0 :: x, c.numNodes⟩ (companionOf timestep previous d)

/-- What the components show after a tick with the solution `x`. -/
def statesOf (c : Circuit α) (timestep : α) (previous : CircuitState α) (x : List α) :
    CircuitState α :=
  c.components.map fun d => (d.id, c.stateOf timestep previous x d)

/-- The static part of what a component contributes. -/
def staticRow (l : Layout) (x : List α) (i : Nat) (time : α) (d : Component α) : α :=
  if d.device.isStatic then d.contribution l time (d.tickState ⟨0 :: x, l.numNodes⟩ none) i else 0

/-- The part of what a component contributes that is stamped with the tick. -/
def dynamicRow (l : Layout) (timestep : α) (previous : CircuitState α) (x : List α) (i : Nat)
    (time : α) (d : Component α) : α :=
  if d.device.isStatic || d.device.isNonlinear then 0
  else d.contribution l time
    (d.tickState ⟨0 :: x, l.numNodes⟩ (companionOf timestep previous d)) i

/-- The static equation of a circuit has the layout of the circuit and holds the static parts. -/
theorem staticEquation_adds {c : Circuit α} {e : Equation α} (hc : c.Numbered)
    (h : c.staticEquation = .ok e) :
    ∃ l : Layout, c.Fits l ∧ e.Fits l ∧ (∀ d ∈ c.components, d.device.Checked) ∧
      ∀ time x i, e.defect x i = (c.components.map (staticRow l x i time)).sum := by
  rw [staticEquation] at h
  obtain ⟨⟨⟩, hvalid, h⟩ := Outcome.bind_eq_ok.1 h
  obtain ⟨blank, hblank, h⟩ := Outcome.bind_eq_ok.1 h
  obtain ⟨l, hl, hs, hfits, hzero⟩ := Equation.fits_blank hblank
  have hcl : c.Fits l := ⟨hc, hl.symm, hs.symm, hl ▸ nodes_lt_of_validate hvalid⟩
  split at h
  · rename_i e' hrun
    cases h
    have hadds : ∀ time, Adds l (c.components.forM Component.stamp)
        (fun x i => (c.components.map (staticRow l x i time)).sum)
        fun _ => ∀ d ∈ c.components, d.device.Checked := fun time =>
      Adds.forM fun d hd => Component.stamp_adds (hcl.component hd) time
    have hadded := hadds 0 _ _ _ hfits hrun
    refine ⟨l, hcl, hadded.1, hadded.2.1, fun time x i => ?_⟩
    rw [(hadds time _ _ _ hfits hrun).2.2, hzero, zero_add]
  · cases h

/-- The companions of a tick after some state, with the ids of their components. -/
def companionsOf (timestep : α) (previous : CircuitState α) (cs : List (Component α)) :
    Companions α :=
  cs.filterMap fun d => (companionOf timestep previous d).map (d.id, ·)

theorem stampOnes_adds {l : Layout} {cs : List (Component α)} (timestep time : α)
    (previous : CircuitState α) (hcs : ∀ d ∈ cs, d.Fits l) (kept : Companions α) :
    Adds l (cs.foldlM (stampOne timestep time previous) kept)
      (fun x i => (cs.map (dynamicRow l timestep previous x i time)).sum)
      fun out => out = (companionsOf timestep previous cs).reverse ++ kept := by
  induction cs generalizing kept with
  | nil => exact .pure rfl
  | cons d cs ih =>
    rw [List.foldlM_cons]
    have hd := Component.stampDynamic_adds (hcs d List.mem_cons_self) timestep time
      ((previous.get? d.id).getD .empty)
    have hone : Adds l (stampOne timestep time previous kept d)
        (fun x i => dynamicRow l timestep previous x i time d)
        fun out => out = (companionsOf timestep previous [d]).reverse ++ kept := by
      unfold stampOne
      refine Adds.congr (hd.bind fun made hmade => ?_) fun x i => add_zero _
      subst hmade
      simp only [companionsOf, companionOf, List.filterMap_cons, List.filterMap_nil]
      split
      · rename_i k hk
        simp only [hk]
        exact .pure rfl
      · rename_i hk
        simp only [hk]
        exact .pure rfl
    have hrest : ∀ out, out = (companionsOf timestep previous [d]).reverse ++ kept →
        Adds l (cs.foldlM (stampOne timestep time previous) out)
          (fun x i => (cs.map (dynamicRow l timestep previous x i time)).sum)
          fun out => out = (companionsOf timestep previous (d :: cs)).reverse ++ kept := by
      intro out hout
      refine (ih (fun d hd => hcs d (List.mem_cons_of_mem _ hd)) out).mono fun out' hout' => ?_
      rw [hout', hout, ← List.append_assoc, ← List.reverse_append, companionsOf, companionsOf,
        companionsOf, ← List.filterMap_append, List.singleton_append]
    refine (hone.bind hrest).congr fun x i => ?_
    rw [List.map_cons, List.sum_cons]

theorem stampTick_adds {l : Layout} {c : Circuit α} (hc : c.Fits l) (timestep time : α)
    (previous : CircuitState α) :
    Adds l (c.stampTick timestep time previous)
      (fun x i => (c.components.map (dynamicRow l timestep previous x i time)).sum)
      fun companions => companions = companionsOf timestep previous c.components := by
  unfold stampTick
  split
  · refine Adds.congr ((stampOnes_adds timestep time previous (fun d hd => hc.component hd)
      []).bind fun kept hkept => ?_) fun x i => add_zero _
    refine .pure ?_
    rw [hkept, List.append_nil, List.reverse_reverse]
  · exact .throw _

/-- The equation of a tick of the circuit, with the companions kept for it. -/
structure Stamped (l : Layout) (c : Circuit α) (timestep time : α) (previous : CircuitState α)
    (companions : Companions α) (e : Equation α) : Prop where
  circuit : c.Fits l
  equation : e.Fits l
  checked : ∀ d ∈ c.components, d.device.Checked
  companions_eq : companions = companionsOf timestep previous c.components
  defect_eq : ∀ x i, e.defect x i = (c.components.map fun d =>
    if d.device.isNonlinear then 0
    else d.contribution l time (c.stateOf timestep previous x d) i).sum

theorem companionOf_static {timestep : α} {previous : CircuitState α} {d : Component α}
    (h : d.device.isStatic) : companionOf timestep previous d = none := by
  obtain ⟨id, name, device⟩ := d
  cases device <;> first | rfl | cases h

theorem stamped_of_stampTick {c : Circuit α} {e₀ e : Equation α} {timestep time : α}
    {previous : CircuitState α} {companions : Companions α} (hc : c.Numbered)
    (hs : c.staticEquation = .ok e₀)
    (ht : c.stampTick timestep time previous e₀ = .ok companions e) :
    ∃ l, Stamped l c timestep time previous companions e := by
  obtain ⟨l, hcl, hel, hchecked, hstatic⟩ := staticEquation_adds hc hs
  obtain ⟨hel', hkept, hdynamic⟩ := stampTick_adds hcl timestep time previous _ _ _ hel ht
  refine ⟨l, hcl, hel', hchecked, hkept, fun x i => ?_⟩
  rw [hdynamic, hstatic time, ← List.sum_map_add]
  congr 1
  refine List.map_congr_left fun d _ => ?_
  rw [staticRow, dynamicRow, stateOf, hcl.numNodes_eq]
  by_cases hd : d.device.isStatic
  · simp [hd, companionOf_static hd, Device.isNonlinear_static hd]
  · simp [hd]

namespace Stamped
variable {l : Layout} {c : Circuit α} {timestep time : α} {previous : CircuitState α}
  {companions : Companions α} {e : Equation α}

theorem deriveState_eq (h : Stamped l c timestep time previous companions e) (x : List α) :
    c.deriveState (0 :: x) companions = .ok (c.statesOf timestep previous x) := by
  refine Outcome.mapM_of_forall fun d hd => ?_
  have hlookup : companions.lookup d.id = companionOf timestep previous d := by
    rw [h.companions_eq]
    exact lookup_filterMap h.circuit.numbered.nodup_ids hd
  rw [Component.componentState_eq hlookup]
  rfl

theorem get?_state (h : Stamped l c timestep time previous companions e) (x : List α)
    {d : Component α} (hd : d ∈ c.components) :
    (c.statesOf timestep previous x).get? d.id = some (c.stateOf timestep previous x d) :=
  h.circuit.numbered.get?_map _ hd

end Stamped

end Circuit

end Nodal
