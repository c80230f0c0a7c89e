import Nodal.Proofs.Scripts

/-! # Who claims which branch

The static equation of a circuit that was made of components, and after it the equation of each
tick, carry out the stamps of the components one after the other. Only a check can fail on the way:
every source has a branch of its own, which one stamp claims in one of the two passes, and no other
component writes in the row, the column or the input of the branch. -/

namespace Nodal

/-- The failure says that a source has no row to stamp. -/
def Failure.lacksBranch {α : Type} : Failure α → Bool
  | .sourceOverflow _ | .topology (.unassignedBranch _) => true
  | _ => false

/-- A check that does not ask for a row. -/
def ParameterCheck {α β : Type} (r : Except (Failure α) β) : Prop :=
  ∀ f, r = .error f → f.lacksBranch = false

namespace ParameterCheck
variable {α β γ : Type} [Scalar α]

omit [Scalar α] in
theorem ok (b : β) : ParameterCheck (.ok b : Except (Failure α) β) := nofun

omit [Scalar α] in
theorem bind {r : Except (Failure α) β} {g : β → Except (Failure α) γ} (hr : ParameterCheck r)
    (hg : ∀ b, ParameterCheck (g b)) : ParameterCheck (r >>= g) := by
  cases r with
  | ok b => exact hg b
  | error f =>
    rintro f' ⟨⟩
    exact hr f rfl

theorem positive (component parameter : String) (v : α) :
    ParameterCheck (requirePositive component parameter v) := by
  unfold requirePositive
  split <;> rintro f ⟨⟩
  rfl

theorem finite (component parameter : String) (v : α) :
    ParameterCheck (requireFinite component parameter v) := by
  unfold requireFinite
  split <;> rintro f ⟨⟩
  rfl

theorem nonnegative (component parameter : String) (v : α) :
    ParameterCheck (requireNonnegative component parameter v) := by
  unfold requireNonnegative
  split <;> rintro f ⟨⟩
  rfl

end ParameterCheck

/-- A success leaves the row, the column and the input of the branch as they were. -/
def Stamping.Spares {α β : Type} [Scalar α] (l : Layout) (k : Branch) (m : Stamping α β) : Prop :=
  ∀ e b e', e.Fits l → m e = .ok b e' → e.SameBranch l k e'

theorem Stamping.Claims.spares {α β : Type} [Scalar α] {l : Layout} {m : Stamping α β} {n : Nat}
    {B : Branch → Prop} {P : β → Prop} (h : Claims l m n B P) {k : Branch}
    (hk : k.number < l.numSources) (hnot : ¬ B k) : Spares l k m :=
  fun e b e' he hm => (h.keeps e b e' he hm).2.2.2 k hk hnot

/-! ## One component -/

namespace Component
open Stamping
variable {α : Type} [Scalar α] {l : Layout} {d : Component α}

/-- The companion that a tick makes for the component. -/
def made (d : Component α) (timestep : α) (previous : CircuitState α) : Option (Companion α) :=
  match d.makeCompanion timestep ((previous.get? d.id).getD .empty) with
  | .ok companion => companion
  | .error _ => none

/-- A component claims its branch, and in one of the two passes only. -/
theorem branches_of_stamps (d : Component α) (time : α) (companion : Option (Companion α)) :
    (d.fixedStamps ++ d.varyingStamps time companion).filterMap Stamp.branch? =
      d.device.branch?.toList := by
  obtain ⟨id, name, device⟩ := d
  cases device with
  | wire a b branch => cases branch <;> rfl
  | voltageSource a b waveform branch => cases waveform <;> cases branch <;> rfl
  | opAmp plus minus output gain branch => cases branch <;> rfl
  | capacitor a b capacitance => cases companion <;> rfl
  | inductor a b inductance => cases companion <;> rfl
  | _ => rfl

theorem branch?_of_stamp {s : Stamp α} {k : Branch} {time : α} {companion : Option (Companion α)}
    (hs : s ∈ d.fixedStamps ++ d.varyingStamps time companion) (hk : s.branch? = some k) :
    d.device.branch? = some k := by
  have hmem := List.mem_filterMap.2 ⟨s, hs, hk⟩
  rwa [branches_of_stamps, Option.mem_toList] at hmem

/-- Stamps connect nodes of the component, and ground. -/
theorem nodes_of_stamp {s : Stamp α} {time : α} {companion : Option (Companion α)}
    (hs : s ∈ d.fixedStamps ++ d.varyingStamps time companion) :
    ∀ n ∈ s.nodes, n ∈ d.device.nodes ∨ n = .ground := by
  obtain ⟨id, name, device⟩ := d
  cases device with
  | resistor a b resistance fault =>
    obtain rfl := List.mem_singleton.1 hs
    exact fun n hn => .inl hn
  | wire a b branch =>
    simp only [fixedStamps, varyingStamps, List.append_nil, List.mem_map] at hs
    obtain ⟨k, -, rfl⟩ := hs
    exact fun n hn => .inl hn
  | voltageSource a b waveform branch =>
    cases waveform <;>
    · simp only [fixedStamps, varyingStamps, Waveform.isTimeVarying, Bool.false_eq_true, if_false,
        if_true, List.append_nil, List.nil_append, List.mem_map] at hs
      obtain ⟨k, -, rfl⟩ := hs
      exact fun n hn => .inl hn
  | currentSource a b current =>
    obtain rfl := List.mem_singleton.1 hs
    exact fun n hn => .inl hn
  | capacitor a b _ | inductor a b _ =>
    cases companion with
    | none => cases hs
    | some k =>
      simp only [fixedStamps, varyingStamps, List.nil_append, Option.toList_some,
        List.flatMap_singleton, List.mem_cons, List.not_mem_nil, or_false] at hs
      rcases hs with rfl | rfl <;> intro n hn <;> left <;>
        simp only [Stamp.nodes, Device.nodes, List.mem_cons, List.not_mem_nil, or_false] at hn ⊢ <;>
        tauto
  | opAmp plus minus output gain branch =>
    simp only [fixedStamps, varyingStamps, List.append_nil, List.mem_map] at hs
    obtain ⟨k, -, rfl⟩ := hs
    intro n hn
    simp only [Stamp.nodes, Device.nodes, List.mem_cons, List.not_mem_nil, or_false] at hn ⊢
    tauto
  | diode _ _ _ | mosfet _ _ _ _ _ => cases hs

theorem nodes_lt_of_stamp (hnodes : ∀ n ∈ d.device.nodes, n.number.toNat < l.numNodes) (time : α)
    (companion : Option (Companion α)) {s : Stamp α}
    (hs : s ∈ d.fixedStamps ++ d.varyingStamps time companion) :
    ∀ n ∈ s.nodes, n.number.toNat < l.numNodes := by
  intro n hn
  obtain hn | rfl := nodes_of_stamp hs n hn
  · exact hnodes n hn
  · exact Nat.lt_of_lt_of_le (by decide) l.two_le

/-- Only a resistor stamps a resistance, and it has checked it. -/
theorem positive_of_stamp (hcheck : d.check = .ok ()) {time : α}
    {companion : Option (Companion α)} {r : α} {a b : Node}
    (hs : .resistor r a b ∈ d.fixedStamps ++ d.varyingStamps time companion) :
    Scalar.isPositive r := by
  obtain ⟨id, name, device⟩ := d
  cases device with
  | resistor a b resistance fault =>
    cases List.mem_singleton.1 hs
    simp only [check, requirePositive] at hcheck
    by_contra hr
    simp [hr] at hcheck
  | voltageSource a b waveform branch =>
    cases waveform <;> simp [fixedStamps, varyingStamps, Waveform.isTimeVarying] at hs
  | _ => simp [fixedStamps, varyingStamps] at hs

section Fits
omit [Scalar α]

theorem Fits.length_branch? (h : d.Fits l) :
    d.device.branch?.toList.length = d.device.numSources := by
  by_cases hs : d.device.numSources = 0
  · rw [Device.branch?_eq_none hs, hs]
    rfl
  · obtain ⟨b, hb, -⟩ := h.branch hs
    rw [hb, Device.numSources_eq_one hs]
    rfl

theorem Fits.branch_lt (h : d.Fits l) {b : Branch} (hb : d.device.branch? = some b) :
    b.number < l.numSources := by
  obtain ⟨b', hb', hlt⟩ := h.branch (Device.numSources_ne_zero hb)
  cases hb.symm.trans hb'
  exact hlt

theorem Fits.requireBranch_ok (h : d.Fits l) (hs : d.device.numSources ≠ 0) :
    ∃ b, requireBranch d.name d.device.branch? = (.ok b : Except (Failure α) Branch) := by
  obtain ⟨b, hb, -⟩ := h.branch hs
  exact ⟨b, by rw [hb]; rfl⟩

end Fits

/-- The stamps of a checked component have a place where the component has one. -/
theorem Fits.stamps (h : d.Fits l) (hcheck : d.check = .ok ()) (time : α)
    (companion : Option (Companion α)) :
    ∀ s ∈ d.fixedStamps ++ d.varyingStamps time companion, s.Fits l := by
  refine fun s hs => ⟨nodes_lt_of_stamp h.nodes_lt time companion hs, fun b hb => ?_,
    fun r a b heq => positive_of_stamp hcheck (heq ▸ hs)⟩
  exact h.branch_lt (branch?_of_stamp hs hb)

/-- A component that has its branch is checked for its parameters only. -/
theorem Fits.parameterCheck (h : d.Fits l) : ParameterCheck d.check := by
  obtain ⟨id, name, device⟩ := d
  cases device with
  | resistor a b resistance fault => exact .positive _ _ _
  | wire a b branch =>
    obtain ⟨k, hk⟩ := h.requireBranch_ok Nat.one_ne_zero
    simp only [Device.branch?] at hk
    simp only [check, hk]
    exact .ok _
  | voltageSource a b waveform branch =>
    obtain ⟨k, hk⟩ := h.requireBranch_ok Nat.one_ne_zero
    simp only [Device.branch?] at hk
    simp only [check, hk]
    split <;> exact .ok _
  | currentSource a b current => exact .ok _
  | capacitor a b capacitance => exact .positive _ _ _
  | inductor a b inductance => exact .positive _ _ _
  | opAmp plus minus output gain branch =>
    obtain ⟨k, hk⟩ := h.requireBranch_ok Nat.one_ne_zero
    simp only [Device.branch?] at hk
    simp only [check, hk]
    exact .bind (.finite _ _ _) fun _ => .ok _
  | diode anode cathode params => exact .bind (.positive _ _ _) fun _ => .positive _ _ _
  | mosfet drain gate source channel params =>
    exact .bind (.positive _ _ _) fun _ => .bind (.positive _ _ _) fun _ =>
      .bind (.positive _ _ _) fun _ => .bind (.positive _ _ _) fun _ =>
        .bind (.finite _ _ _) fun _ => .nonnegative _ _ _

/-- The checks before a tick hold when those before the first one have. -/
theorem Fits.makeCompanion_ok (h : d.Fits l) (hcheck : d.check = .ok ()) {timestep : α}
    (ht : Scalar.isPositive timestep) (previous : CircuitState α) :
    d.makeCompanion timestep ((previous.get? d.id).getD .empty) =
      .ok (d.made timestep previous) := by
  suffices hok : ∃ companion,
      d.makeCompanion timestep ((previous.get? d.id).getD .empty) = .ok companion by
    obtain ⟨companion, hok⟩ := hok
    simp only [made, hok]
  generalize (previous.get? d.id).getD .empty = state
  obtain ⟨id, name, device⟩ := d
  have htime : requirePositive name "timestep" timestep = .ok () := if_pos ht
  cases device with
  | voltageSource a b waveform branch =>
    obtain ⟨k, hk⟩ := h.requireBranch_ok Nat.one_ne_zero
    simp only [Device.branch?] at hk
    simp only [makeCompanion, hk]
    split <;> exact ⟨_, rfl⟩
  | capacitor a b capacitance =>
    simp only [check] at hcheck
    simp only [makeCompanion, Companion.capacitor, hcheck, htime]
    exact ⟨_, rfl⟩
  | inductor a b inductance =>
    simp only [check] at hcheck
    simp only [makeCompanion, Companion.inductor, hcheck, htime]
    exact ⟨_, rfl⟩
  | _ => exact ⟨_, rfl⟩

end Component

/-! ## All components -/

theorem Equation.blank_inv {α : Type} [Scalar α] {numNodes numSources : Nat} {e : Equation α}
    (h : blank numNodes numSources = .ok e) :
    ∃ l : Layout, l.numNodes = numNodes ∧ l.numSources = numSources ∧ e.Fits l ∧
      e.numStamped = 0 := by
  rw [blank] at h
  split at h
  · cases h
  rename_i htwo
  simp only at h
  split at h
  · cases h
  rename_i hlt
  cases h
  exact ⟨⟨numNodes, numSources, Nat.le_of_not_lt htwo, Nat.lt_of_not_le hlt⟩, rfl, rfl,
    ⟨rfl, rfl, rfl, List.length_replicate⟩, rfl⟩

namespace Circuit
open Stamping
variable {α : Type} [Scalar α] {l : Layout} {c : Circuit α} {cs : List (Component α)}
  {e e' : Equation α}

/-- The static part of components: all of them have passed their checks, and the fixed stamps are
carried out. -/
theorem forM_stamp_inv {u : PUnit} (h : cs.forM Component.stamp e = .ok u e') :
    (∀ d ∈ cs, d.check = .ok ()) ∧ carryOut (cs.flatMap Component.fixedStamps) e = .ok () e' := by
  induction cs generalizing e with
  | nil => exact ⟨nofun, h⟩
  | cons d cs ih =>
    simp only [List.forM_eq_forM, List.forM_cons, Component.stamp_eq, bind_assoc] at h
    cases hd : d.check with
    | error f =>
      rw [hd] at h
      cases h
    | ok u =>
      rw [hd, check_ok, pure_bind] at h
      obtain ⟨u₁, e₁, h₁, hrest⟩ := run_bind_eq_ok.1 h
      obtain ⟨hchecks, hcarry⟩ := ih hrest
      refine ⟨List.forall_mem_cons.2 ⟨hd, hchecks⟩, ?_⟩
      rw [List.flatMap_cons, carryOut_append]
      exact run_bind_eq_ok.2 ⟨u₁, e₁, h₁, hcarry⟩

/-- While there are sources left to claim, only a check can fail. -/
theorem forM_stamp_error {halt : Halt α} (hcs : ∀ d ∈ cs, d.Fits l) (he : e.Fits l)
    (hroom : e.numStamped +
      ((cs.flatMap Component.fixedStamps).filterMap Stamp.branch?).length ≤ l.numSources)
    (h : cs.forM Component.stamp e = .error halt e') :
    ∃ d ∈ cs, ∃ f, d.check = .error f ∧ halt = .failed f := by
  induction cs generalizing e with
  | nil => cases h
  | cons d cs ih =>
    obtain ⟨hfits, hrest⟩ := List.forall_mem_cons.1 hcs
    simp only [List.forM_eq_forM, List.forM_cons, Component.stamp_eq, bind_assoc] at h
    cases hd : d.check with
    | error f =>
      rw [hd] at h
      cases h
      exact ⟨d, List.mem_cons_self, f, hd, rfl⟩
    | ok u =>
      rw [hd, check_ok, pure_bind] at h
      have hclaims := carryOut_claims fun s hs =>
        hfits.stamps hd 0 none s (List.mem_append_left _ hs)
      rw [List.flatMap_cons, List.filterMap_append, List.length_append] at hroom
      obtain ⟨u, e₁, h₁⟩ := hclaims.succeeds e he (by omega)
      obtain ⟨he₁, -, hn, -⟩ := hclaims.keeps e _ e₁ he h₁
      simp only [bind, EStateM.bind, h₁] at h
      obtain ⟨d', hd', hf⟩ := ih hrest he₁ (by omega) h
      exact ⟨d', List.mem_cons_of_mem _ hd', hf⟩

/-- The varying part of components, when all of them can be stamped with this timestep. -/
theorem foldlM_stampOne {timestep : α} {previous : CircuitState α} (time : α)
    (h : ∀ d ∈ cs, d.makeCompanion timestep ((previous.get? d.id).getD .empty) =
      .ok (d.made timestep previous)) (kept : Companions α) :
    cs.foldlM (stampOne timestep time previous) kept = (do
      carryOut (cs.flatMap fun d => d.varyingStamps time (d.made timestep previous))
      return (cs.filterMap fun d => (d.made timestep previous).map (d.id, ·)).reverse ++ kept) := by
  induction cs generalizing kept with
  | nil => rfl
  | cons d cs ih =>
    obtain ⟨hd, hcs⟩ := List.forall_mem_cons.1 h
    rw [List.foldlM_cons, stampOne, Component.stampDynamic_eq, hd, List.flatMap_cons,
      carryOut_append]
    simp only [check_ok, pure_bind, bind_assoc, ih hcs]
    congr 1
    funext u
    cases hm : d.made timestep previous <;> simp [hm]

theorem stampTick_eq {timestep : α} {previous : CircuitState α} (time : α)
    (ht : Scalar.isPositive timestep)
    (h : ∀ d ∈ c.components, d.makeCompanion timestep ((previous.get? d.id).getD .empty) =
      .ok (d.made timestep previous)) :
    c.stampTick timestep time previous = (do
      carryOut (c.components.flatMap fun d => d.varyingStamps time (d.made timestep previous))
      return c.components.filterMap fun d => (d.made timestep previous).map (d.id, ·)) := by
  rw [stampTick, if_pos ht, foldlM_stampOne time h]
  simp

/-- The stamps of the equation of a tick, each with its component: the fixed ones of all components,
then the varying ones. -/
def script (c : Circuit α) (timestep time : α) (previous : CircuitState α) :
    List (Component α × Stamp α) :=
  c.components.flatMap (fun d => d.fixedStamps.map (d, ·)) ++
    c.components.flatMap fun d => (d.varyingStamps time (d.made timestep previous)).map (d, ·)

theorem stamps_of_script (c : Circuit α) (timestep time : α) (previous : CircuitState α) :
    (c.script timestep time previous).map Prod.snd =
      c.components.flatMap Component.fixedStamps ++
        c.components.flatMap fun d => d.varyingStamps time (d.made timestep previous) := by
  simp [script, List.map_flatMap, Function.comp_def]

omit [Scalar α] in
/-- Two passes claim as many branches as there are sources when together they claim one for each. -/
theorem length_passes {f g : Component α → List (Stamp α)}
    (h : ∀ d ∈ cs, ((f d ++ g d).filterMap Stamp.branch?).length = d.device.numSources) :
    ((cs.flatMap f ++ cs.flatMap g).filterMap Stamp.branch?).length =
      (cs.filter fun d => d.device.numSources ≠ 0).length := by
  induction cs with
  | nil => rfl
  | cons d cs ih =>
    obtain ⟨hd, hcs⟩ := List.forall_mem_cons.1 h
    have ih := ih hcs
    simp only [List.flatMap_cons, List.filterMap_append, List.length_append] at hd ih ⊢
    by_cases hs : d.device.numSources = 0
    · rw [List.filter_cons_of_neg (by simpa using hs)]
      omega
    · rw [List.filter_cons_of_pos (by simpa using hs), List.length_cons]
      have := Device.numSources_eq_one hs
      omega

theorem Fits.length_branches (h : c.Fits l) (timestep time : α) (previous : CircuitState α) :
    (((c.script timestep time previous).map Prod.snd).filterMap Stamp.branch?).length =
      l.numSources := by
  rw [stamps_of_script, length_passes, ← h.numSources_eq, ← h.numbered.length_sources, sources]
  intro d hd
  rw [Component.branches_of_stamps, (h.component hd).length_branch?]

/-- The components whose stamps claim a branch, one for each claim. -/
def claimants (c : Circuit α) (timestep time : α) (previous : CircuitState α) (k : Branch) :
    List (Component α) :=
  ((c.script timestep time previous).filter fun p => p.2.branch? = some k).map Prod.fst

/-- When only one member of a list without repetitions has something, all of it comes from there. -/
theorem flatMap_of_unique {β γ : Type} {xs : List β} {x : β} {f : β → List γ} (hnodup : xs.Nodup)
    (hx : x ∈ xs) (hf : ∀ y ∈ xs, y ≠ x → f y = []) : xs.flatMap f = f x := by
  induction xs with
  | nil => cases hx
  | cons y ys ih =>
    obtain ⟨hy, hnodup⟩ := List.nodup_cons.1 hnodup
    rw [List.flatMap_cons]
    rcases List.mem_cons.1 hx with rfl | hx
    · have hrest : ys.flatMap f = [] := List.flatMap_eq_nil_iff.2 fun z hz =>
        hf z (List.mem_cons_of_mem _ hz) fun h => hy (h ▸ hz)
      rw [hrest, List.append_nil]
    · rw [hf y List.mem_cons_self fun h => hy (h ▸ hx), List.nil_append]
      exact ih hnodup hx fun z hz => hf z (List.mem_cons_of_mem _ hz)

omit [Scalar α] in
/-- In one pass only the component that has the branch can claim it. -/
theorem claimants_of_pass {f : Component α → List (Stamp α)} {k : Branch} {d : Component α}
    (hnodup : cs.Nodup) (hd : d ∈ cs)
    (h : ∀ d' ∈ cs, d' ≠ d → ∀ s ∈ f d', s.branch? ≠ some k) :
    ((cs.flatMap fun d' => (f d').map (d', ·)).filter fun p => p.2.branch? = some k).map Prod.fst =
      ((f d).filter fun s => s.branch? = some k).map fun _ => d := by
  rw [List.filter_flatMap, flatMap_of_unique hnodup hd]
  · simp [List.filter_map, Function.comp_def]
  · intro d' hd' hne
    have := h d' hd' hne
    simpa [List.filter_map, Function.comp_def] using this

/-- Of all stamps, one claims the branch, and it is one of the component that has the branch. -/
theorem Fits.claimants_eq (h : c.Fits l) (timestep time : α) (previous : CircuitState α)
    {k : Branch} {d : Component α} (hd : d ∈ c.components) (hk : d.device.branch? = some k)
    (honly : ∀ d' ∈ c.components, d' ≠ d → d'.device.branch? ≠ some k) :
    c.claimants timestep time previous k = [d] := by
  have hnodup : c.components.Nodup := h.numbered.nodup_ids.of_map _
  have hother : ∀ d' ∈ c.components, d' ≠ d → ∀ s ∈ d'.fixedStamps ++
      d'.varyingStamps time (d'.made timestep previous), s.branch? ≠ some k :=
    fun d' hd' hne s hs hsk => honly d' hd' hne (Component.branch?_of_stamp hs hsk)
  have hone : ((d.fixedStamps ++ d.varyingStamps time (d.made timestep previous)).filter
      fun s => s.branch? = some k).length = 1 := by
    have hcount := congrArg (List.count k)
      (Component.branches_of_stamps d time (d.made timestep previous))
    rw [hk, Option.toList_some, List.count_singleton_self, List.count_filterMap] at hcount
    rw [← List.countP_eq_length_filter, ← hcount]
    exact List.countP_congr fun s _ => by simp
  rw [claimants, script, List.filter_append, List.map_append, claimants_of_pass hnodup hd,
    claimants_of_pass hnodup hd, ← List.map_append, ← List.filter_append, List.map_const', hone]
  · rfl
  · exact fun d' hd' hne s hs => hother d' hd' hne s (List.mem_append_right _ hs)
  · exact fun d' hd' hne s hs => hother d' hd' hne s (List.mem_append_left _ hs)

/-- What the static equation of a numbered circuit is made of. -/
structure StaticPart (c : Circuit α) (l : Layout) (blank e₀ : Equation α) : Prop where
  fits : c.Fits l
  blank_eq : Equation.blank c.numNodes c.numSources = .ok blank
  blank_fits : blank.Fits l
  blank_numStamped : blank.numStamped = 0
  checks : ∀ d ∈ c.components, d.check = .ok ()
  carriedOut : carryOut (c.components.flatMap Component.fixedStamps) blank = .ok () e₀

theorem staticPart {e₀ : Equation α} (hc : c.Numbered) (h : c.staticEquation = .ok e₀) :
    ∃ l blank, c.StaticPart l blank e₀ := by
  unfold staticEquation at h
  obtain ⟨u, hvalid, h⟩ := Outcome.bind_eq_ok.1 h
  obtain ⟨blank, hblank, h⟩ := Outcome.bind_eq_ok.1 h
  split at h
  · rename_i hstamps
    cases h
    obtain ⟨l, hnodes, hsources, hfits, hstamped⟩ := Equation.blank_inv hblank
    obtain ⟨hchecks, hcarry⟩ := forM_stamp_inv hstamps
    have hcfits : c.Fits l :=
      ⟨hc, hnodes.symm, hsources.symm, hnodes ▸ nodes_lt_of_validate hvalid⟩
    exact ⟨l, blank, hcfits, hblank, hfits, hstamped, hchecks, hcarry⟩
  · cases h

/-- Once the blank equation stands, only the check of a component refuses the circuit. -/
theorem staticEquation_or_check {blank : Equation α} (hc : c.Numbered)
    (hvalid : c.validate = (.ok () : Outcome α Unit))
    (hblank : Equation.blank c.numNodes c.numSources = .ok blank) :
    (∃ e₀, c.staticEquation = .ok e₀) ∨
      ∃ d ∈ c.components, ∃ f, d.check = .error f ∧ c.staticEquation = .error (.failed f) := by
  obtain ⟨l, hnodes, hsources, hfits, hstamped⟩ := Equation.blank_inv hblank
  have hcfits : c.Fits l :=
    ⟨hc, hnodes.symm, hsources.symm, hnodes ▸ nodes_lt_of_validate hvalid⟩
  unfold staticEquation
  simp only [hvalid, hblank, Outcome.ok_bind]
  cases hstamps : (c.components.forM Component.stamp).run blank with
  | ok u e₀ => exact .inl ⟨e₀, rfl⟩
  | error halt e =>
    have hroom := hcfits.length_branches 0 0 []
    rw [stamps_of_script, List.filterMap_append, List.length_append] at hroom
    obtain ⟨d, hd, f, hf, rfl⟩ := forM_stamp_error (fun d hd => hcfits.component hd) hfits
      (by omega) hstamps
    exact .inr ⟨d, hd, f, hf, rfl⟩

theorem staticEquation_of_blank {blank : Equation α} (hc : c.Numbered)
    (hvalid : c.validate = (.ok () : Outcome α Unit))
    (hblank : Equation.blank c.numNodes c.numSources = .ok blank) :
    (∃ e₀, c.staticEquation = .ok e₀) ∨
      ∃ f, f.lacksBranch = false ∧ c.staticEquation = .error (.failed f) := by
  obtain ⟨l, hnodes, hsources, -⟩ := Equation.blank_inv hblank
  have hcfits : c.Fits l :=
    ⟨hc, hnodes.symm, hsources.symm, hnodes ▸ nodes_lt_of_validate hvalid⟩
  obtain hok | ⟨d, hd, f, hf, hstatic⟩ := staticEquation_or_check hc hvalid hblank
  · exact .inl hok
  · exact .inr ⟨f, (hcfits.component hd).parameterCheck f hf, hstatic⟩

/-- The static equation of a numbered circuit has a row for each of its sources. -/
theorem lacksBranch_of_staticEquation {f : Failure α} (hc : c.Numbered)
    (h : c.staticEquation = .error (.failed f)) : f.lacksBranch = false := by
  have hvalidates := c.validates
  cases hvalid : (c.validate : Outcome α Unit) with
  | error halt =>
    rw [staticEquation, hvalid] at h
    cases h
    rw [hvalid] at hvalidates
    cases hvalidates <;> rfl
  | ok u =>
    cases hblank : (Equation.blank c.numNodes c.numSources : Outcome α (Equation α)) with
    | error halt =>
      rw [staticEquation, hvalid, Outcome.ok_bind, hblank] at h
      cases h
      rw [Equation.blank] at hblank
      split at hblank
      · cases hblank
        rfl
      simp only at hblank
      split at hblank <;> cases hblank
    | ok blank =>
      obtain ⟨e₀, he₀⟩ | ⟨g, hg, hstatic⟩ := staticEquation_of_blank hc hvalid hblank
      · cases he₀.symm.trans h
      · cases hstatic.symm.trans h
        exact hg

namespace StaticPart
variable {blank e₀ : Equation α} {timestep : α}

/-- A tick of a positive timestep can be stamped: the varying stamps follow the fixed ones, and all
sources have been claimed in the end. -/
theorem stampTick_ok (h : c.StaticPart l blank e₀) (ht : Scalar.isPositive timestep) (time : α)
    (previous : CircuitState α) :
    ∃ e, c.stampTick timestep time previous e₀ =
        .ok (c.components.filterMap fun d => (d.made timestep previous).map (d.id, ·)) e ∧
      carryOut ((c.script timestep time previous).map Prod.snd) blank = .ok () e ∧
      e.Fits l ∧ e.numStamped = l.numSources := by
  have hstamps : ∀ s ∈ (c.script timestep time previous).map Prod.snd, s.Fits l := by
    rw [stamps_of_script]
    intro s hs
    rcases List.mem_append.1 hs with hs | hs <;> obtain ⟨d, hd, hs⟩ := List.mem_flatMap.1 hs
    · exact (h.fits.component hd).stamps (h.checks d hd) 0 none s (List.mem_append_left _ hs)
    · exact (h.fits.component hd).stamps (h.checks d hd) _ _ s (List.mem_append_right _ hs)
  have hclaims := carryOut_claims hstamps
  rw [h.fits.length_branches] at hclaims
  obtain ⟨u, e, he⟩ := hclaims.succeeds blank h.blank_fits (by rw [h.blank_numStamped]; omega)
  obtain ⟨hfits, -, hn, -⟩ := hclaims.keeps blank u e h.blank_fits he
  refine ⟨e, ?_, he, hfits, by rw [hn, h.blank_numStamped, Nat.zero_add]⟩
  rw [stampTick_eq time ht fun d hd =>
    (h.fits.component hd).makeCompanion_ok (h.checks d hd) ht previous]
  rw [stamps_of_script, carryOut_append] at he
  simp only [bind, EStateM.bind, h.carriedOut] at he ⊢
  rw [he]
  rfl

/-- A component leaves the branches of the others alone, in both passes. -/
theorem spares (h : c.StaticPart l blank e₀) (ht : Scalar.isPositive timestep) (time : α)
    (previous : CircuitState α) {d : Component α} (hd : d ∈ c.components) {k : Branch}
    (hk : k.number < l.numSources) (hne : d.device.branch? ≠ some k) :
    Spares l k d.stamp ∧
      Spares l k (d.stampDynamic timestep time ((previous.get? d.id).getD .empty)) := by
  have hfits := h.fits.component hd
  have hcheck := h.checks d hd
  have hother : ∀ s ∈ d.fixedStamps ++ d.varyingStamps time (d.made timestep previous),
      s.branch? ≠ some k := fun s hs hsk => hne (Component.branch?_of_stamp hs hsk)
  constructor
  · rw [Component.stamp_eq, hcheck, check_ok, pure_bind]
    refine (carryOut_claims fun s hs => hfits.stamps hcheck time (d.made timestep previous) s
      (List.mem_append_left _ hs)).spares hk ?_
    rintro ⟨s, hs, hsk⟩
    exact hother s (List.mem_append_left _ hs) hsk
  · rw [Component.stampDynamic_eq, hfits.makeCompanion_ok hcheck ht, check_ok, pure_bind]
    refine ((carryOut_claims fun s hs => hfits.stamps hcheck _ _ s
      (List.mem_append_right _ hs)).andReturn (Q := fun _ => True) fun _ _ => trivial).spares hk ?_
    rintro ⟨s, hs, hsk⟩
    exact hother s (List.mem_append_right _ hs) hsk

/-- Every branch has an owner, which claims it with one stamp; nothing else writes there. -/
theorem owner (h : c.StaticPart l blank e₀) (ht : Scalar.isPositive timestep) (time : α)
    (previous : CircuitState α) {k : Nat} (hk : k < l.numSources) :
    ∃ d ∈ c.components,
      c.claimants timestep time previous ⟨k⟩ = [d] ∧
      ∀ d' ∈ c.components, d' ≠ d → Spares l ⟨k⟩ d'.stamp ∧
        Spares l ⟨k⟩ (d'.stampDynamic timestep time ((previous.get? d'.id).getD .empty)) := by
  have hlt : k < c.sources.length := by
    rw [h.fits.numbered.length_sources, h.fits.numSources_eq]
    exact hk
  obtain ⟨d, hd⟩ : ∃ d, c.sources[k]? = some d := ⟨_, List.getElem?_eq_getElem hlt⟩
  have honly : ∀ d' ∈ c.components, d' ≠ d → d'.device.branch? ≠ some ⟨k⟩ := fun d' hd' hne heq =>
    hne ((h.fits.numbered.branch?_eq_iff hd hd').1 heq)
  have hmem := mem_of_source hd
  refine ⟨d, hmem, ?_, fun d' hd' hne => h.spares ht time previous hd' hk (honly d' hd' hne)⟩
  exact h.fits.claimants_eq timestep time previous hmem (h.fits.numbered.branch?_source hd) honly

end StaticPart

end Circuit

end Nodal
