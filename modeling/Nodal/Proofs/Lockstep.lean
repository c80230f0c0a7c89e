import Nodal.Proofs.Cadence
import Nodal.Proofs.Families

/-! # Runs in lockstep

Simulators stay in lockstep when ticks keep them related (`Lockstep`): their moments are the same
ticks with the same outcomes and the same calls, unless they come to a tick that stops the
comparison. -/

namespace Nodal.Simulator
variable {ι α : Type} [Scalar α]

/-- What decides when the next tick is taken. -/
structure SameClock (base s : Simulator α) : Prop where
  remaining : s.remaining = base.remaining
  running : s.running = base.running
  isReady : s.isReady = base.isReady
  timestep : s.settings.timestep = base.settings.timestep
  rate : s.settings.rate = base.settings.rate

/-- `R` holds of simulators with the same clock. A tick of which `Goes` holds ends alike and keeps
it; the others stop the comparison. -/
structure Lockstep (R : (ι → Simulator α) → Prop) (Goes Stops : Nat → (ι → Simulator α) → Prop) :
    Prop where
  clock : ∀ s, R s → ∃ base, ∀ i, SameClock base (s i)
  waiting : ∀ s, R s → ∀ remaining, R fun i => { s i with remaining }
  noting : ∀ s, R s → ∀ lastError, R fun i => { s i with lastError }
  switched : ∀ s, R s → ∀ running, R fun i => { s i with running }
  reset : ∀ s, R s → R fun i => (s i).reset
  tick : ∀ budget s, R s →
    Goes budget s ∧ Together R (fun _ => True) (fun i => Simulator.tick budget (s i)) ∨
      Stops budget s

/-- The runs are at the same tick, which ends alike, or at calls that do. -/
inductive InStep (R : (ι → Simulator α) → Prop) (Goes : Nat → (ι → Simulator α) → Prop)
    (m : ι → Moment α) : Prop
  | tick (budget : Nat) (s : ι → Simulator α) : (∀ i, m i = .tick budget (s i)) → R s →
      Goes budget s → Together R (fun _ => True) (fun i => Simulator.tick budget (s i)) →
      InStep R Goes m
  | call (budget : Nat) (calls : ι → Call α) (s : ι → Simulator α) :
      (∀ i, m i = .call budget (calls i) (s i)) → R s →
      Together R Same (fun i => perform budget (calls i) (s i)) → InStep R Goes m

/-- The runs are at the same tick, which stops the comparison. -/
def Stopped (R : (ι → Simulator α) → Prop) (Stops : Nat → (ι → Simulator α) → Prop)
    (m : ι → Moment α) : Prop :=
  ∃ budget s, (∀ i, m i = .tick budget (s i)) ∧ R s ∧ Stops budget s

/-- The calls are the same, or they end alike on simulators of which `R` holds. -/
inductive Matching (R : (ι → Simulator α) → Prop) (calls : ι → Call α) : Prop
  | start : (∀ i, calls i = .start) → Matching R calls
  | stop : (∀ i, calls i = .stop) → Matching R calls
  | advance (milliseconds : α) : (∀ i, calls i = .advance milliseconds) → Matching R calls
  | other : (∀ i milliseconds, calls i ≠ .advance milliseconds) →
      (∀ budget s, R s → Together R Same fun i => perform budget (calls i) (s i)) →
      Matching R calls

namespace Lockstep
variable {R : (ι → Simulator α) → Prop} {Goes Stops : Nat → (ι → Simulator α) → Prop}
  {s : ι → Simulator α} {calls : ι → List (Nat × Call α)}

theorem spend (h : Lockstep R Goes Stops) (hs : R s) : R fun i => (s i).spend := by
  obtain ⟨base, hbase⟩ := h.clock s hs
  have hspend : (fun i => (s i).spend) =
      fun i => { s i with remaining := base.remaining - base.settings.timestep } := by
    funext i
    rw [Simulator.spend, (hbase i).remaining, (hbase i).timestep]
  rw [hspend]
  exact h.waiting s hs _

theorem receive (h : Lockstep R Goes Stops) (hs : R s) (milliseconds : α) :
    R fun i => (s i).receive milliseconds := by
  obtain ⟨base, hbase⟩ := h.clock s hs
  have hreceive : (fun i => (s i).receive milliseconds) = fun i => { s i with
      remaining := base.remaining + milliseconds / 1000.0 * base.settings.rate } := by
    funext i
    rw [Simulator.receive, (hbase i).remaining, (hbase i).rate]
  rw [hreceive]
  exact h.waiting s hs _

theorem fail (h : Lockstep R Goes Stops) (hs : R s) (f : Failure α) :
    R fun i => (s i).fail f :=
  h.noting _ (h.waiting _ (h.reset s hs) 0) (some f)

/-- The ticks of an advance are attempted together and end alike, or one of them stops the
comparison, whatever would come after it. -/
theorem attempted (h : Lockstep R Goes Stops) (hs : R s) (threshold : α) (budget ticks : Nat) :
    (Each (InStep R Goes) fun i => Simulator.attempted threshold budget ticks (s i)) ∧
        (∀ steps, Together R Same fun i => takeTicks threshold budget ticks steps (s i)) ∨
      ∀ rest : ι → List (Moment α), Until (InStep R Goes) (Stopped R Stops)
        fun i => Simulator.attempted threshold budget ticks (s i) ++ rest i := by
  induction ticks generalizing s with
  | zero =>
    obtain ⟨base, hbase⟩ := h.clock s hs
    refine .inl ⟨.nil fun _ => rfl, fun steps => ?_⟩
    by_cases hle : threshold ≤ base.remaining
    · exact .error .exhausted s
        (fun i => takeTicks_zero (by rwa [(hbase i).remaining]) budget steps) hs
    · exact .ok _ s
        (fun i => (takeTicks_waiting (by rwa [(hbase i).remaining]) budget 0 steps).1)
        (.const _) hs
  | succ ticks ih =>
    obtain ⟨base, hbase⟩ := h.clock s hs
    by_cases hle : threshold ≤ base.remaining
    case neg =>
      have hwait := fun i steps =>
        takeTicks_waiting (s := s i) (by rwa [(hbase i).remaining]) budget (ticks + 1) steps
      exact .inl ⟨.nil fun i => (hwait i 0).2, fun steps =>
        .ok _ s (fun i => (hwait i steps).1) (.const _) hs⟩
    have hle : ∀ i, threshold ≤ (s i).remaining := fun i => by rwa [(hbase i).remaining]
    simp only [Simulator.attempted, takeTicks_succ (hle _), if_pos (hle _)]
    rcases h.tick budget s hs with ⟨hgoes, htogether⟩ | hstops
    case inr =>
      exact .inr fun rest => .stop (fun i => .tick budget (s i)) _ (fun i => List.cons_append)
        ⟨budget, s, fun _ => rfl, hs, hstops⟩
    have hstep : InStep R Goes fun i => .tick budget (s i) :=
      .tick budget s (fun _ => rfl) hs hgoes htogether
    cases htogether with
    | ok u s₁ ht _ hs₁ =>
      simp only [ht]
      rcases ih (h.spend hs₁) with ⟨hticks, htake⟩ | hstop
      · refine .inl ⟨.cons _ _ (fun _ => rfl) hstep hticks, fun steps => ?_⟩
        exact htake (steps + 1)
      · exact .inr fun rest => .cons _ _ (fun _ => rfl) hstep (hstop rest)
    | error halt s₁ ht hs₁ =>
      simp only [ht]
      refine .inl ⟨.cons _ _ (fun _ => rfl) hstep (.nil fun _ => rfl), fun steps => ?_⟩
      cases halt with
      | failed f => exact .ok _ _ (fun _ => rfl) (.const _) (h.fail hs₁ f)
      | misuse m => exact .error _ s₁ (fun _ => rfl) hs₁
      | exhausted => exact .error _ s₁ (fun _ => rfl) hs₁

theorem advance (h : Lockstep R Goes Stops) (hs : R s) (budget : Nat) (milliseconds : α) :
    (Each (InStep R Goes) fun i => Call.attempted budget (s i) (.advance milliseconds)) ∧
        (Together R Same fun i => perform budget (.advance milliseconds) (s i)) ∨
      ∀ rest : ι → List (Moment α), Until (InStep R Goes) (Stopped R Stops)
        fun i => Call.attempted budget (s i) (.advance milliseconds) ++ rest i := by
  obtain ⟨base, hbase⟩ := h.clock s hs
  have hthreshold : ∀ i, (s i).threshold = base.threshold := by
    intro i
    rw [threshold, (hbase i).timestep, threshold]
  by_cases hready : base.running && base.isReady
  case neg =>
    refine .inl ⟨.nil fun i => ?_, Together.andReturn ?_ some⟩
    · rw [Call.attempted, (hbase i).running, (hbase i).isReady, if_neg hready]
    · simp only [Simulator.advance, (hbase _).running, (hbase _).isReady, if_neg hready]
      exact .ok _ s (fun _ => rfl) (.const _) hs
  simp only [Call.attempted, (hbase _).running, (hbase _).isReady, if_pos hready, hthreshold]
  rcases h.attempted (h.receive hs milliseconds) base.threshold budget budget with
    ⟨hticks, htake⟩ | hstop
  · refine .inl ⟨hticks, Together.andReturn ?_ some⟩
    obtain ⟨hrunning, hisReady⟩ := Bool.and_eq_true_iff.1 hready
    have hrunning : ∀ i, (s i).running = true := fun i => by rw [(hbase i).running, hrunning]
    have hisReady : ∀ i, (s i).isReady = true := fun i => by rw [(hbase i).isReady, hisReady]
    simp only [advance_eq (hrunning _) (hisReady _), hthreshold]
    cases htake 0 with
    | ok b s₁ ht hb hs₁ =>
      obtain ⟨⟨steps, failed⟩, hb⟩ := hb
      simp only [ht, hb]
      refine .ok _ _ (fun _ => rfl) (.const _) ?_
      unfold settled
      split
      · exact hs₁
      split
      · exact h.noting s₁ hs₁ none
      · exact hs₁
    | error halt s₁ ht hs₁ =>
      simp only [ht]
      exact .error halt s₁ (fun _ => rfl) hs₁
  · exact .inr hstop

/-- Matching calls are in lockstep up to the first tick that stops the comparison. -/
theorem moments (h : Lockstep R Goes Stops)
    (hcalls : Each (fun c : ι → Nat × Call α => Same (fun i => (c i).1) ∧
      Matching R fun i => (c i).2) calls) (hs : R s) :
    Until (InStep R Goes) (Stopped R Stops) fun i => moments (calls i) (s i) := by
  induction hcalls generalizing s with
  | nil hcalls =>
    obtain rfl : _ = fun _ => [] := funext hcalls
    exact .nil fun _ => rfl
  | @cons calls c rest hcalls hc _ ih =>
    obtain rfl : calls = fun i => c i :: rest i := funext hcalls
    obtain ⟨⟨budget, hbudget⟩, hmatching⟩ := hc
    simp only [Simulator.moments, hbudget]
    have hcall : (Together R Same fun i => perform budget (c i).2 (s i)) →
        Until (InStep R Goes) (Stopped R Stops) fun i => .call budget (c i).2 (s i) ::
          Simulator.moments (rest i) (after (perform budget (c i).2 (s i))) := by
      intro htogether
      exact .cons _ _ (fun _ => rfl) (.call budget _ s (fun _ => rfl) hs htogether)
        (ih htogether.after)
    cases hmatching with
    | start hstart =>
      simp only [hstart] at hcall ⊢
      exact hcall (.ok _ _ (fun _ => rfl) (.const _) (h.switched s hs true))
    | stop hstop =>
      simp only [hstop] at hcall ⊢
      exact hcall (.ok _ _ (fun _ => rfl) (.const _) (h.switched s hs false))
    | advance milliseconds hadvance =>
      simp only [hadvance] at hcall ⊢
      rcases h.advance hs budget milliseconds with ⟨hticks, htogether⟩ | hstop
      · exact Until.append hticks (hcall htogether)
      · exact hstop _
    | other hother htogether =>
      have hnone : ∀ i, (c i).2.attempted budget (s i) = [] := by
        intro i
        cases hi : (c i).2 with
        | advance milliseconds => exact absurd hi (hother i milliseconds)
        | _ => rfl
      simp only [hnone, List.nil_append]
      exact hcall (htogether budget s hs)

end Lockstep

end Nodal.Simulator
