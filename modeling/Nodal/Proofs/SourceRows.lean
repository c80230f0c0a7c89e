import Nodal.Proofs.Branches
import Nodal.Proofs.Infallible

/-! # Requests to stamp

Whoever stamps into an equation is told when something is wrong: a parameter, a branch that is
missing or beyond the last one, more sources than there are rows. The checks come before the claim
of a row and the claim comes before the writing, so a request that is refused leaves the equation as
it was, and the number of stamped sources is always the number of sources that have been stamped. -/

namespace Nodal
variable {α β γ : Type}

/-! ## Refusals -/

namespace Stamping

/-- Does not end with an error that a caller handles. -/
def Unfailing (m : Stamping α β) : Prop := ∀ e f e', m e ≠ .error (.failed f) e'

/-- An error that a caller handles comes before anything is written. -/
def Cautious (m : Stamping α β) : Prop := ∀ e f e', m e = .error (.failed f) e' → e' = e

theorem Unfailing.pure (b : β) : Unfailing (pure b : Stamping α β) := nofun

theorem Unfailing.bind {m : Stamping α β} {f : β → Stamping α γ} (hm : Unfailing m)
    (hf : ∀ b, Unfailing (f b)) : Unfailing (m >>= f) := by
  intro e g e' h
  obtain h₁ | ⟨b, e₁, -, h'⟩ := run_bind_eq_error.1 h
  · exact hm e g e' h₁
  · exact hf b e₁ g e' h'

theorem Unfailing.cautious {m : Stamping α β} (hm : Unfailing m) : Cautious m :=
  fun e f e' h => absurd h (hm e f e')

theorem Cautious.bind {m : Stamping α β} {f : β → Stamping α γ} (hm : Cautious m)
    (hf : ∀ b, Unfailing (f b)) : Cautious (m >>= f) := by
  intro e g e' h
  obtain h₁ | ⟨b, e₁, -, h'⟩ := run_bind_eq_error.1 h
  · exact hm e g e' h₁
  · exact absurd h' (hf b e₁ g e')

/-- A check does not see the equation. -/
theorem Cautious.check {r : Except (Failure α) β} {f : β → Stamping α γ}
    (hf : ∀ b, Cautious (f b)) : Cautious (do f (← check r)) := by
  cases r with
  | ok b => exact hf b
  | error g =>
    intro e f e' h
    cases h
    rfl

end Stamping

/-- The stamp is never refused. -/
def Stamp.Unconditional : Stamp α → Prop
  | conductance .. | currentSource .. => True
  | _ => False

variable [Scalar α]

namespace Equation
open Stamping

theorem unfailing_addCell (row col : Option Nat) (v : α) : Unfailing (addCell row col v) := by
  intro e f e' h
  simp only [addCell] at h
  split at h
  · split at h
    · cases h
    · rename_i halt hadd
      cases h
      exact e.admittances.unfailing_modify _ _ _ f hadd
  · cases h

theorem unfailing_addInput (row : Option Nat) (v : α) : Unfailing (addInput row v) := by
  intro e f e' h
  simp only [addInput] at h
  split at h
  · cases h
  · split at h <;> cases h

omit [Scalar α] in
theorem cautious_claimBranch (k : Branch) : Cautious (claimBranch k : Stamping α Nat) := by
  intro e f e' h
  simp only [claimBranch] at h
  split at h <;> cases h
  rfl

theorem unfailing_stampConductance (g : α) (a b : Node) : Unfailing (stampConductance g a b) :=
  .bind (unfailing_addCell _ _ _) fun _ => .bind (unfailing_addCell _ _ _) fun _ =>
    .bind (unfailing_addCell _ _ _) fun _ => unfailing_addCell _ _ _

theorem unfailing_stampCoupling (row : Nat) (a b : Node) :
    Unfailing (stampCoupling row a b : Stamping α Unit) :=
  .bind (unfailing_addCell _ _ _) fun _ => .bind (unfailing_addCell _ _ _) fun _ =>
    .bind (unfailing_addCell _ _ _) fun _ => unfailing_addCell _ _ _

theorem unfailing_stampCurrentSource (i : α) (a b : Node) :
    Unfailing (stampCurrentSource i a b) :=
  .bind (unfailing_addInput _ _) fun _ => unfailing_addInput _ _

theorem cautious_stampResistor (r : α) (a b : Node) : Cautious (stampResistor r a b) := by
  unfold stampResistor
  split
  · exact (unfailing_stampConductance (1 / r) a b).cautious
  · intro e f e' h
    cases h
    rfl

theorem cautious_stampVoltageSource (v : α) (a b : Node) (k : Branch) :
    Cautious (stampVoltageSource v a b k) :=
  (cautious_claimBranch k).bind fun row => (unfailing_stampCoupling row a b).bind fun _ =>
    (unfailing_addInput _ _).bind fun _ => .pure row

theorem cautious_stampControlledSource (gain : α) (outA outB inA inB : Node) (k : Branch) :
    Cautious (stampControlledSource gain outA outB inA inB k) :=
  (cautious_claimBranch k).bind fun row => (unfailing_stampCoupling row outB outA).bind fun _ =>
    (unfailing_addCell _ _ _).bind fun _ => (unfailing_addCell _ _ _).bind fun _ => .pure row

end Equation

namespace Stamping
open Equation

theorem unfailing_apply {s : Stamp α} (h : s.Unconditional) : Unfailing s.apply := by
  cases s with
  | conductance g a b => exact (unfailing_stampConductance g a b).bind fun _ => .pure none
  | currentSource i a b => exact (unfailing_stampCurrentSource i a b).bind fun _ => .pure none
  | _ => exact h.elim

theorem cautious_apply (s : Stamp α) : Cautious s.apply := by
  cases s with
  | conductance g a b => exact (unfailing_apply (s := .conductance g a b) trivial).cautious
  | currentSource i a b => exact (unfailing_apply (s := .currentSource i a b) trivial).cautious
  | resistor r a b => exact (cautious_stampResistor r a b).bind fun _ => .pure none
  | voltageSource v a b k =>
    exact (cautious_stampVoltageSource v a b k).bind fun row => .pure (some row)
  | controlledSource gain outA outB inA inB k =>
    exact (cautious_stampControlledSource gain outA outB inA inB k).bind fun row => .pure (some row)

theorem unfailing_carryOut {stamps : List (Stamp α)} (h : ∀ s ∈ stamps, s.Unconditional) :
    Unfailing (carryOut stamps) := by
  induction stamps with
  | nil => exact .pure ()
  | cons s stamps ih =>
    obtain ⟨hs, hstamps⟩ := List.forall_mem_cons.1 h
    exact (unfailing_apply hs).bind fun _ => ih hstamps

/-- When only the first of the stamps can be refused, nothing is written before it is. -/
theorem cautious_carryOut {stamps : List (Stamp α)} (h : ∀ s ∈ stamps.tail, s.Unconditional) :
    Cautious (carryOut stamps) := by
  cases stamps with
  | nil => exact (Unfailing.pure ()).cautious
  | cons s stamps => exact (cautious_apply s).bind fun _ => unfailing_carryOut h

end Stamping

namespace Component
open Stamping
variable (d : Component α)

theorem unconditional_fixedStamps : ∀ s ∈ d.fixedStamps.tail, s.Unconditional := by
  obtain ⟨id, name, device⟩ := d
  cases device with
  | wire a b branch => cases branch <;> exact nofun
  | voltageSource a b waveform branch => cases waveform <;> cases branch <;> exact nofun
  | opAmp plus minus output gain branch => cases branch <;> exact nofun
  | _ => exact nofun

theorem unconditional_varyingStamps (time : α) (companion : Option (Companion α)) :
    ∀ s ∈ (d.varyingStamps time companion).tail, s.Unconditional := by
  obtain ⟨id, name, device⟩ := d
  cases device with
  | voltageSource a b waveform branch => cases waveform <;> cases branch <;> exact nofun
  | capacitor a b _ | inductor a b _ =>
    cases companion with
    | none => exact nofun
    | some k => exact List.forall_mem_singleton.2 trivial
  | _ => exact nofun

theorem cautious_stamp : Cautious d.stamp := by
  rw [stamp_eq]
  exact .check fun _ => cautious_carryOut d.unconditional_fixedStamps

theorem cautious_stampDynamic (timestep time : α) (previous : ComponentState α) :
    Cautious (d.stampDynamic timestep time previous) := by
  rw [stampDynamic_eq]
  exact .check fun made =>
    (cautious_carryOut (d.unconditional_varyingStamps time made)).bind fun _ => .pure made

end Component

/-! ## Requests -/

/-- What can be asked of an equation: a stamp, or one of the two parts of a component. -/
inductive StampRequest (α : Type) where
  | stamp (s : Stamp α)
  | fixed (d : Component α)
  | varying (d : Component α) (timestep time : α) (previous : ComponentState α)

namespace StampRequest

/-- Carries out the request. A source that is stamped by itself tells its row. -/
def run : StampRequest α → Stamping α (Option Nat)
  | stamp s => s.apply
  | fixed d => do
    d.stamp
    return none
  | varying d timestep time previous => do
    let _ ← d.stampDynamic timestep time previous
    return none

def nodes : StampRequest α → List Node
  | stamp s => s.nodes
  | fixed d | varying d _ _ _ => d.device.nodes

/-- The branch whose row the request tells. -/
def branch? : StampRequest α → Option Branch
  | stamp s => s.branch?
  | _ => none

/-- The stamps of the request, when it is fulfilled. -/
def stamps : StampRequest α → List (Stamp α)
  | stamp s => [s]
  | fixed d => d.fixedStamps
  | varying d timestep time previous =>
    match d.makeCompanion timestep previous with
    | .ok made => d.varyingStamps time made
    | .error _ => []

end StampRequest

namespace Stamp
variable {l : Layout} {s : Stamp α}

theorem Unconditional.fits (h : s.Unconditional)
    (hnodes : ∀ n ∈ s.nodes, n.number.toNat < l.numNodes) : s.Fits l := by
  refine ⟨hnodes, ?_, ?_⟩
  · cases s with
    | conductance _ _ _ | currentSource _ _ _ => exact nofun
    | _ => exact h.elim
  · rintro r a b rfl
    exact h.elim

omit [Scalar α] in
theorem Unconditional.branch?_eq_none (h : s.Unconditional) : s.branch? = none := by
  cases s with
  | conductance _ _ _ | currentSource _ _ _ => rfl
  | _ => exact h.elim

end Stamp

/-- The equation fits the layout and counts no more sources than there are. -/
structure Equation.InShape (l : Layout) (e : Equation α) : Prop extends e.Fits l where
  numStamped_le : e.numStamped ≤ l.numSources

/-- The equation after stamps: it is in shape, and their sources are counted. -/
structure Equation.InShapeAfter (l : Layout) (e : Equation α) (stamps : List (Stamp α))
    (e' : Equation α) : Prop extends e'.InShape l where
  numStamped_eq : e'.numStamped = e.numStamped + (stamps.filterMap Stamp.branch?).length

/-- The stamps fit, and there are rows left for their sources. -/
structure Equation.Accepts (l : Layout) (e : Equation α) (stamps : List (Stamp α)) : Prop where
  fits : ∀ s ∈ stamps, s.Fits l
  room : e.numStamped + (stamps.filterMap Stamp.branch?).length ≤ l.numSources

namespace Stamping
open Equation
variable {l : Layout} {e : Equation α}

theorem accepts_source {s : Stamp α} {k : Branch} (hk : s.branch? = some k)
    (hnodes : ∀ n ∈ s.nodes, n.number.toNat < l.numNodes) (he : e.Fits l)
    (hclaim : ¬ (e.numSources ≤ e.numStamped ∨ e.numSources ≤ k.number)) : e.Accepts l [s] := by
  rw [he.numSources_eq] at hclaim
  refine ⟨List.forall_mem_singleton.2 ⟨hnodes, fun b hb => ?_, ?_⟩, ?_⟩
  · cases hk.symm.trans hb
    omega
  · rintro r a b rfl
    cases hk
  · simp only [List.filterMap_cons, hk, List.filterMap_nil, List.length_singleton]
    omega

/-- A stamp whose nodes are in range is refused unless it is accepted. -/
theorem apply_refused {s : Stamp α} (hnodes : ∀ n ∈ s.nodes, n.number.toNat < l.numNodes)
    (he : e.InShape l) (h : ¬ e.Accepts l [s]) : ∃ f, s.apply e = .error (.failed f) e := by
  cases s with
  | conductance _ _ _ | currentSource _ _ _ =>
    refine absurd ⟨List.forall_mem_singleton.2 ?_, he.numStamped_le⟩ h
    exact Stamp.Unconditional.fits trivial hnodes
  | resistor r a b =>
    by_cases hr : Scalar.isPositive r
    · refine absurd ⟨List.forall_mem_singleton.2 ⟨hnodes, nofun, ?_⟩, he.numStamped_le⟩ h
      rintro r a b ⟨⟩
      exact hr
    · have hthrow : stampResistor r a b = throw _ := if_neg hr
      exact ⟨_, run_bind_eq_error.2 (.inl (by rw [hthrow]; rfl))⟩
  | voltageSource _ _ _ k | controlledSource _ _ _ _ _ k =>
    by_cases hclaim : e.numSources ≤ e.numStamped ∨ e.numSources ≤ k.number
    · exact ⟨_, run_bind_eq_error.2 (.inl (run_bind_eq_error.2 (.inl (if_pos hclaim))))⟩
    · exact absurd (accepts_source rfl hnodes he.toFits hclaim) h

/-- Of some stamps only the first can be refused, and it is unless they are all accepted. -/
theorem carryOut_refused {stamps : List (Stamp α)} (htail : ∀ s ∈ stamps.tail, s.Unconditional)
    (hnodes : ∀ s ∈ stamps, ∀ n ∈ s.nodes, n.number.toNat < l.numNodes) (he : e.InShape l)
    (h : ¬ e.Accepts l stamps) : ∃ f, carryOut stamps e = .error (.failed f) e := by
  cases stamps with
  | nil => exact absurd ⟨nofun, he.numStamped_le⟩ h
  | cons s stamps =>
    obtain ⟨hs, hstamps⟩ := List.forall_mem_cons.1 hnodes
    have hfirst : ¬ e.Accepts l [s] := by
      intro hfirst
      have hnone : stamps.filterMap Stamp.branch? = [] :=
        List.filterMap_eq_nil_iff.2 fun s' hs' => (htail s' hs').branch?_eq_none
      have hlength : ((s :: stamps).filterMap Stamp.branch?).length =
          ([s].filterMap Stamp.branch?).length := by
        simp only [List.filterMap_cons, hnone, List.filterMap_nil]
      refine h ⟨List.forall_mem_cons.2 ⟨hfirst.fits s List.mem_cons_self, fun s' hs' => ?_⟩, ?_⟩
      · exact (htail s' hs').fits (hstamps s' hs')
      · exact hlength ▸ hfirst.room
    obtain ⟨f, hf⟩ := apply_refused hs he hfirst
    exact ⟨f, run_bind_eq_error.2 (.inl hf)⟩

/-- Accepted stamps are carried out. -/
theorem Claims.carries {m : Stamping α β} {stamps : List (Stamp α)} {B : Branch → Prop}
    {P : β → Prop} (hm : Claims l m (stamps.filterMap Stamp.branch?).length B P) (he : e.Fits l)
    (h : e.Accepts l stamps) : ∃ b e', m e = .ok b e' ∧ P b ∧ e.InShapeAfter l stamps e' := by
  obtain ⟨b, e', hok⟩ := hm.succeeds e he h.room
  obtain ⟨hfits, hb, hn, -⟩ := hm.keeps e b e' he hok
  exact ⟨b, e', hok, hb, ⟨hfits, hn ▸ h.room⟩, hn⟩

/-- A check with stamps after it. -/
def script (r : Except (Failure α) β) (stamps : β → List (Stamp α)) (c : γ) : Stamping α γ := do
  carryOut (stamps (← check r))
  return c

/-- When only the first of the stamps can be refused, all of them are carried out, or nothing is. -/
theorem script_ends (r : Except (Failure α) β) {stamps : β → List (Stamp α)}
    (htail : ∀ b, ∀ s ∈ (stamps b).tail, s.Unconditional)
    (hnodes : ∀ b, ∀ s ∈ stamps b, ∀ n ∈ s.nodes, n.number.toNat < l.numNodes)
    (he : e.InShape l) (c : γ) :
    (∃ b e', r = .ok b ∧ script r stamps c e = .ok c e' ∧ e.InShapeAfter l (stamps b) e') ∨
      ∃ f, script r stamps c e = .error (.failed f) e := by
  cases r with
  | error f => exact .inr ⟨f, rfl⟩
  | ok b =>
    simp only [script, check_ok, pure_bind]
    by_cases h : e.Accepts l (stamps b)
    · obtain ⟨u, e', hok, -, he'⟩ := (carryOut_claims h.fits).carries he.toFits h
      exact .inl ⟨b, e', rfl, run_bind_eq_ok.2 ⟨u, e', hok, rfl⟩, he'⟩
    · obtain ⟨f, hf⟩ := carryOut_refused (htail b) (hnodes b) he h
      exact .inr ⟨f, run_bind_eq_error.2 (.inl hf)⟩

end Stamping

namespace StampRequest
open Stamping
variable {l : Layout} {e : Equation α}

theorem cautious_run (r : StampRequest α) : Cautious r.run := by
  cases r with
  | stamp s => exact cautious_apply s
  | fixed d => exact d.cautious_stamp.bind fun _ => .pure none
  | varying d timestep time previous =>
    exact (d.cautious_stampDynamic timestep time previous).bind fun _ => .pure none

/-- A request whose nodes are in range is fulfilled, and tells the row of its branch, or it is
refused. -/
theorem run_ends {r : StampRequest α} (hnodes : ∀ n ∈ r.nodes, n.number.toNat < l.numNodes)
    (he : e.InShape l) :
    (∃ e', r.run e = .ok (r.branch?.map l.branchRow) e' ∧ e.InShapeAfter l r.stamps e' ∧
      ∀ k, r.branch? = some k → k.number < l.numSources) ∨
      ∃ f, r.run e = .error (.failed f) e := by
  cases r with
  | stamp s =>
    by_cases h : e.Accepts l [s]
    · have hlength : s.branch?.toList.length = ([s].filterMap Stamp.branch?).length := by
        cases hb : s.branch? <;> simp [hb]
      obtain ⟨row, e', hok, rfl, he'⟩ :=
        (hlength ▸ apply_claims (h.fits s List.mem_cons_self)).carries he.toFits h
      exact .inl ⟨e', hok, he', (h.fits s List.mem_cons_self).branch_lt⟩
    · exact .inr (apply_refused hnodes he h)
  | fixed d =>
    have hrun : (fixed d).run = script d.check (fun _ => d.fixedStamps) none := by
      rw [run, script, Component.stamp_eq, bind_assoc]
    rw [hrun]
    refine (script_ends d.check (fun _ => d.unconditional_fixedStamps) (fun _ s hs => ?_) he
      none).imp ?_ id
    · exact Component.nodes_lt_of_stamp hnodes 0 none (List.mem_append_left _ hs)
    · rintro ⟨_, e', -, hok, he'⟩
      exact ⟨e', hok, he', nofun⟩
  | varying d timestep time previous =>
    have hrun : (varying d timestep time previous).run =
        script (d.makeCompanion timestep previous) (d.varyingStamps time) none := by
      simp only [run, script, Component.stampDynamic_eq, bind_assoc, pure_bind]
    rw [hrun]
    refine (script_ends (d.makeCompanion timestep previous)
      (fun made => d.unconditional_varyingStamps time made) (fun made s hs => ?_) he none).imp ?_ id
    · exact Component.nodes_lt_of_stamp hnodes time made (List.mem_append_right _ hs)
    · rintro ⟨made, e', hmade, hok, he'⟩
      exact ⟨e', hok, by rwa [stamps, hmade], nofun⟩

end StampRequest

/-! ## Runs of requests -/

namespace Equation

/-- The equation has come from the blank one by requests whose nodes are in range. `done` are those
that were fulfilled, the last first. -/
inductive Reached (numNodes numSources : Nat) : List (StampRequest α) → Equation α → Prop where
  | blank {e : Equation α} (h : blank numNodes numSources = .ok e) :
    Reached numNodes numSources [] e
  | fulfilled {done : List (StampRequest α)} {e e' : Equation α} {r : StampRequest α}
    {row : Option Nat} (h : Reached numNodes numSources done e)
    (hnodes : ∀ n ∈ r.nodes, n.number.toNat < numNodes) (hr : r.run e = .ok row e') :
    Reached numNodes numSources (r :: done) e'
  | refused {done : List (StampRequest α)} {e e' : Equation α} {r : StampRequest α} {f : Failure α}
    (h : Reached numNodes numSources done e) (hnodes : ∀ n ∈ r.nodes, n.number.toNat < numNodes)
    (hr : r.run e = .error (.failed f) e') : Reached numNodes numSources done e'

/-- How an equation stands after requests, and how it answers the next one. -/
structure Keeps (numNodes numSources : Nat) (done : List (StampRequest α)) (e : Equation α) :
    Prop where
  numNodes_eq : e.numNodes = numNodes
  numSources_eq : e.numSources = numSources
  length_inputs : e.inputs.length = numNodes - 1 + numSources
  size_admittances : e.admittances.size = numNodes - 1 + numSources
  /-- The sources that were stamped are counted. -/
  numStamped_eq : e.numStamped =
    ((done.flatMap StampRequest.stamps).filterMap Stamp.branch?).length
  numStamped_le : e.numStamped ≤ numSources
  /-- A request is fulfilled and tells the row of its branch, a row of the matrix, or it is refused
  and leaves the equation as it is. -/
  answers : ∀ r : StampRequest α, (∀ n ∈ r.nodes, n.number.toNat < numNodes) →
    (∃ e', r.run e = .ok (r.branch?.map fun k => numNodes - 1 + k.number) e' ∧
      ∀ k, r.branch? = some k → numNodes - 1 + k.number < e.admittances.size) ∨
      ∃ f, r.run e = .error (.failed f) e

variable {numNodes numSources : Nat} {done : List (StampRequest α)} {e : Equation α}

theorem Reached.inShape (h : e.Reached numNodes numSources done) :
    ∃ l : Layout, l.numNodes = numNodes ∧ l.numSources = numSources ∧ e.InShape l ∧
      e.numStamped = ((done.flatMap StampRequest.stamps).filterMap Stamp.branch?).length := by
  induction h with
  | blank h =>
    obtain ⟨l, hnodes, hsources, hfits, hstamped⟩ := blank_inv h
    exact ⟨l, hnodes, hsources, ⟨hfits, hstamped ▸ Nat.zero_le _⟩, hstamped⟩
  | @fulfilled done e e' r row _ hnodes hr ih =>
    obtain ⟨l, rfl, rfl, he, hcount⟩ := ih
    obtain ⟨e₁, hok, he₁, -⟩ | ⟨f, hf⟩ := StampRequest.run_ends hnodes he
    · cases hok.symm.trans hr
      refine ⟨l, rfl, rfl, he₁.toInShape, ?_⟩
      rw [he₁.numStamped_eq, hcount, List.flatMap_cons, List.filterMap_append, List.length_append,
        Nat.add_comm]
    · cases hf.symm.trans hr
  | @refused done e e' r f _ _ hr ih =>
    cases r.cautious_run e f e' hr
    exact ih

theorem Reached.keeps (h : e.Reached numNodes numSources done) :
    e.Keeps numNodes numSources done := by
  obtain ⟨l, rfl, rfl, he, hcount⟩ := h.inShape
  refine ⟨he.numNodes_eq, he.numSources_eq, he.length_eq, he.size_eq, hcount, he.numStamped_le,
    fun r hnodes => ?_⟩
  refine (StampRequest.run_ends hnodes he).imp_left ?_
  rintro ⟨e', hok, -, hlt⟩
  exact ⟨e', hok, fun k hk => he.size_eq ▸ l.branchRow_lt (hlt k hk)⟩

/-- Whatever is asked of an equation, it keeps its size, counts the sources that have been stamped,
and has a row for each of them; a component that is refused, in either pass and at any equation, has
not written anything. -/
theorem requests_keep_equation :
    (∀ numNodes numSources (done : List (StampRequest α)) (e : Equation α),
      e.Reached numNodes numSources done → e.Keeps numNodes numSources done) ∧
    ∀ (d : Component α) (e e' : Equation α) f,
      (d.stamp e = .error (.failed f) e' → e' = e) ∧
      ∀ timestep time previous,
        d.stampDynamic timestep time previous e = .error (.failed f) e' → e' = e := by
  refine ⟨fun _ _ _ _ h => h.keeps, fun d e e' f => ⟨?_, fun timestep time previous => ?_⟩⟩
  · exact d.cautious_stamp e f e'
  · exact d.cautious_stampDynamic timestep time previous e f e'

/-- A resistor, a source that is stamped by itself, and an amplifier that takes the last row. -/
def filling : List (StampRequest ℚ) :=
  [.fixed ⟨⟨3⟩, "U3", .opAmp ⟨1⟩ ⟨2⟩ ⟨2⟩ 1000 (some ⟨1⟩)⟩,
    .stamp (.voltageSource 5 .ground ⟨1⟩ ⟨0⟩),
    .fixed ⟨⟨1⟩, "R1", .resistor ⟨1⟩ ⟨2⟩ 2 .intact⟩]

/-- The equation of three nodes and two sources after requests, of which the last comes first. -/
def asked (rs : List (StampRequest ℚ)) : Equation ℚ :=
  rs.foldr (fun r e => after (r.run e)) ⟨.zeros 4, [0, 0, 0, 0], 3, 2, 0⟩

theorem requests_keep_equation_filling :
    (asked filling).Reached 3 2 filling ∧ (asked filling).numStamped = 2 ∧
      (∃ f, Component.stamp ⟨⟨4⟩, "W4", .wire ⟨1⟩ ⟨2⟩ (some ⟨0⟩)⟩ (asked filling) =
        .error (.failed f) (asked filling)) ∧
      ∃ f, Component.stampDynamic ⟨⟨5⟩, "L5", .inductor ⟨1⟩ ⟨2⟩ 1⟩ 0 0 .empty (asked filling) =
        .error (.failed f) (asked filling) := by
  obtain ⟨hreached, hrefused⟩ := requests_keep_equation (α := ℚ)
  obtain ⟨row₁, h₁⟩ := exists_of_succeeds (r := filling[2].run (asked [])) (by decide +kernel)
  obtain ⟨row₂, h₂⟩ := exists_of_succeeds (r := filling[1].run (asked (filling.drop 2)))
    (by decide +kernel)
  obtain ⟨row₃, h₃⟩ := exists_of_succeeds (r := filling[0].run (asked (filling.drop 1)))
    (by decide +kernel)
  have h : (asked filling).Reached 3 2 filling :=
    .fulfilled (.fulfilled (.fulfilled (.blank rfl) (by decide) h₁) (by decide) h₂) (by decide) h₃
  obtain ⟨f₁, hf₁⟩ := exists_of_fails
    (r := Component.stamp ⟨⟨4⟩, "W4", .wire ⟨1⟩ ⟨2⟩ (some ⟨0⟩)⟩ (asked filling)) (by decide +kernel)
  obtain ⟨f₂, hf₂⟩ := exists_of_fails
    (r := Component.stampDynamic ⟨⟨5⟩, "L5", .inductor ⟨1⟩ ⟨2⟩ 1⟩ 0 0 .empty (asked filling))
    (by decide +kernel)
  refine ⟨h, (hreached 3 2 filling _ h).numStamped_eq, ⟨f₁, ?_⟩, f₂, ?_⟩
  · exact hf₁.trans (congrArg _ ((hrefused _ _ _ f₁).1 hf₁))
  · exact hf₂.trans (congrArg _ ((hrefused _ _ _ f₂).2 _ _ _ hf₂))

end Equation

end Nodal
