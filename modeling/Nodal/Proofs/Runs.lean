import Nodal.Proofs.Ticks

/-! # Runs of a simulator

A run is a list of calls. Only loading changes the circuit and its static equation, so every tick
since a load works on the circuit that was loaded. -/

namespace Nodal

/-- A circuit made of some components. -/
def Circuit.Built {α : Type} (c : Circuit α) : Prop := ∃ cs, Circuit.ofComponents cs = .ok c

namespace Simulator
variable {α : Type}

/-- Whether a call replaces the circuit. -/
def Call.isLoad : Call α → Bool
  | .loadCircuit _ | .loadComponents _ | .loadDescription _ => true
  | _ => false

variable [Scalar α]

/-- The simulator with other settings. -/
def configured (settings : SimulatorSettings α) (s : Simulator α) : Simulator α :=
  { s with settings, newton := solverOf settings }

theorem configure_eq (settings : SimulatorSettings α) (s : Simulator α) :
    configure settings s =
      match settings.validate with
      | .ok () => .ok () (s.configured settings)
      | .error f => .error (.failed f) s := rfl

/-- A description is its settings first, and then its components. -/
theorem loadDescription_eq (d : Description α) (s : Simulator α) :
    loadDescription d s =
      match d.simulation.validate, d.toComponents with
      | .ok (), .ok cs => loadComponents cs (s.configured d.simulation)
      | .ok (), .error f => .error (.failed f) (s.configured d.simulation)
      | .error f, _ => .error (.failed f) s := by
  simp only [loadDescription, bind, EStateM.bind, configure_eq]
  cases d.simulation.validate with
  | error f => rfl
  | ok u => cases d.toComponents <;> rfl

/-- `s'` stands right after one of the ticks of a list of calls that starts from `s`. -/
inductive TickIn (budget : Nat) : List (Call α) → Simulator α → Simulator α → Prop
  | now {milliseconds : α} {calls : List (Call α)} {s s₁ s' : Simulator α} {log : List (Event α)} :
      s.running → s.isReady → Ticks s.threshold budget (s.receive milliseconds) log s₁ →
      s.threshold ≤ s₁.remaining → tick budget s₁ = .ok () s' →
      TickIn budget (.advance milliseconds :: calls) s s'
  | later {call : Call α} {calls : List (Call α)} {s s' : Simulator α} :
      TickIn budget calls (after (perform budget call s)) s' → TickIn budget (call :: calls) s s'

/-- Ticks that have been taken end with a last one. -/
theorem Ticks.exists_last {threshold : α} {budget : Nat} {s s' : Simulator α}
    {log : List (Event α)} (h : Ticks threshold budget s log s') (hlog : log ≠ []) :
    ∃ front s₁ s₂, Ticks threshold budget s front s₁ ∧ threshold ≤ s₁.remaining ∧
      tick budget s₁ = .ok () s₂ ∧ s' = s₂.spend := by
  induction h with
  | done s => exact absurd rfl hlog
  | @more s s₁ s' log hle ht hticks ih =>
    by_cases hrest : log = []
    · subst hrest
      cases hticks
      exact ⟨[], s, s₁, .done s, hle, ht, rfl⟩
    · obtain ⟨front, s₂, s₃, hfront, hwait, hlast, rfl⟩ := ih hrest
      exact ⟨_, s₂, s₃, .more hle ht hfront, hwait, hlast, rfl⟩

/-- An advance that takes ticks and leaves no error ends right after the last of them, but for the
time that this tick has used up. -/
theorem TickIn.of_advance {budget n : Nat} {milliseconds : α} {s s' : Simulator α}
    (h : advance budget milliseconds s = .ok n s') (hn : 0 < n) (herr : s'.lastError = none) :
    ∃ s₁, TickIn budget [.advance milliseconds] s s₁ ∧
      s' = { s₁.spend with lastError := none } := by
  rcases advance_cases h with ⟨-, rfl, -⟩ | ⟨hrunning, hready, hended⟩
  · exact absurd hn (Nat.lt_irrefl 0)
  generalize advanceLog budget milliseconds s = log at hended
  cases hended with
  | waiting hticks _ =>
    obtain ⟨front, s₁, s₂, hfront, hle, ht, rfl⟩ :=
      hticks.exists_last (List.ne_nil_of_length_pos hn)
    exact ⟨s₂, .now hrunning hready hfront hle ht, if_pos hn⟩
  | failed => cases herr

/-- The simulator holds this circuit with this static equation. -/
structure Holds (c : Circuit α) (e : Equation α) (s : Simulator α) : Prop where
  circuit_eq : s.circuit = c
  equation_eq : s.equation = some e

namespace Holds
variable {c : Circuit α} {e : Equation α} {s s' : Simulator α} {budget : Nat}

theorem of_eq {α : Type} {c : Circuit α} {e : Equation α} {s s' : Simulator α} (h : Holds c e s)
    (hc : s'.circuit = s.circuit) (he : s'.equation = s.equation) :
    Holds c e s' :=
  ⟨hc.trans h.circuit_eq, he.trans h.equation_eq⟩

theorem tick (h : Holds c e s) : Holds c e (after (tick budget s)) := by
  unfold Simulator.tick
  split
  · exact h
  · simp only
    split <;> exact h.of_eq rfl rfl

theorem of_tick (h : Holds c e s) (ht : Simulator.tick budget s = .ok () s') : Holds c e s' := by
  have hs : Holds c e (after (Simulator.tick budget s)) := h.tick
  rwa [ht] at hs

theorem ticks {threshold : α} {log : List (Event α)} (h : Holds c e s)
    (ht : Ticks threshold budget s log s') : Holds c e s' := by
  induction ht with
  | done s => exact h
  | more _ ht _ ih => exact ih ((h.of_tick ht).of_eq rfl rfl)

theorem takeTicks (h : Holds c e s) (threshold : α) (budget ticks steps : Nat) :
    Holds c e (after (takeTicks threshold budget ticks steps s)) := by
  induction ticks generalizing s steps with
  | zero =>
    unfold Simulator.takeTicks
    split <;> exact h
  | succ ticks ih =>
    by_cases hle : threshold ≤ s.remaining
    case neg =>
      rw [(takeTicks_waiting hle budget (ticks + 1) steps).1]
      exact h
    have hs : Holds c e (after (Simulator.tick budget s)) := h.tick
    rw [takeTicks_succ hle]
    split <;> rename_i s₁ ht <;> rw [ht] at hs
    · have hs₁ : Holds c e s₁.spend := hs.of_eq rfl rfl
      exact ih hs₁ (steps + 1)
    · exact hs.of_eq rfl rfl
    · exact hs

theorem advance (h : Holds c e s) (budget : Nat) (milliseconds : α) :
    Holds c e (after (advance budget milliseconds s)) := by
  by_cases hboth : s.running ∧ s.isReady
  case neg =>
    rw [(advance_idle hboth budget milliseconds).1]
    exact h
  have hreceive : Holds c e (s.receive milliseconds) := h.of_eq rfl rfl
  have hs := hreceive.takeTicks s.threshold budget budget 0
  rw [advance_eq hboth.1 hboth.2]
  split <;> rename_i ht <;> rw [ht] at hs
  · unfold after settled
    simp only
    split
    · exact hs
    split
    · exact hs.of_eq rfl rfl
    · exact hs
  · exact hs

theorem perform (h : Holds c e s) {call : Call α} (hcall : call.isLoad = false) :
    Holds c e (after (perform budget call s)) := by
  cases call with
  | configure settings =>
    have hs : Holds c e (after (configure settings s)) := by
      unfold configure
      split <;> exact h.of_eq rfl rfl
    simp only [Simulator.perform, bind, EStateM.bind]
    split <;> rename_i ht <;> rw [ht] at hs <;> exact hs
  | start => exact h.of_eq rfl rfl
  | stop => exact h.of_eq rfl rfl
  | advance milliseconds =>
    have hs := h.advance budget milliseconds
    simp only [Simulator.perform, bind, EStateM.bind]
    split <;> rename_i ht <;> rw [ht] at hs <;> exact hs
  | loadCircuit c => cases hcall
  | loadComponents cs => cases hcall
  | loadDescription d => cases hcall

theorem tickIn (h : Holds c e s) {calls : List (Call α)}
    (hcalls : ∀ call ∈ calls, call.isLoad = false) (ht : TickIn budget calls s s') :
    ∃ s₀, Holds c e s₀ ∧ Simulator.tick budget s₀ = .ok () s' := by
  induction ht with
  | @now milliseconds calls s s₁ s' log _ _ hticks _ ht =>
    have hreceive : Holds c e (s.receive milliseconds) := h.of_eq rfl rfl
    exact ⟨s₁, hreceive.ticks hticks, ht⟩
  | @later call calls s s' _ ih =>
    have hs : Holds c e (after (Simulator.perform budget call s)) :=
      h.perform (hcalls call List.mem_cons_self)
    exact ih hs fun call hcall => hcalls call (List.mem_cons_of_mem _ hcall)

/-- An advance that takes ticks and leaves no error ends right after a tick of the circuit. -/
theorem of_advance {n : Nat} {milliseconds : α} (h : Holds c e s)
    (hadvance : Simulator.advance budget milliseconds s = .ok n s') (hn : 0 < n)
    (herr : s'.lastError = none) : ∃ s₀ s₁, Holds c e s₀ ∧ Simulator.tick budget s₀ = .ok () s₁ ∧
      s' = { s₁.spend with lastError := none } := by
  obtain ⟨s₁, hs₁, rfl⟩ := TickIn.of_advance hadvance hn herr
  obtain ⟨s₀, hs₀, ht⟩ := h.tickIn (List.forall_mem_singleton.2 rfl) hs₁
  exact ⟨s₀, s₁, hs₀, ht, rfl⟩

theorem of_loadCircuit (hc : c.Built) (h : loadCircuit c s = .ok () s')
    (herr : s'.lastError = none) : ∃ c e, c.Built ∧ c.staticEquation = .ok e ∧ Holds c e s' := by
  unfold loadCircuit at h
  split at h
  · rename_i e he
    cases h
    exact ⟨c, e, hc, he, rfl, rfl⟩
  · cases h
    cases herr
  · cases h

theorem of_loadComponents {cs : List (Component α)} (h : loadComponents cs s = .ok () s')
    (herr : s'.lastError = none) : ∃ c e, c.Built ∧ c.staticEquation = .ok e ∧ Holds c e s' := by
  unfold loadComponents at h
  cases hc : Circuit.ofComponents cs with
  | ok c =>
    rw [hc] at h
    exact of_loadCircuit ⟨cs, hc⟩ h herr
  | error f =>
    rw [hc] at h
    obtain ⟨_, s₁, hload, h⟩ := run_bind_eq_ok.1 h
    cases hload
    cases h
    cases herr

/-- After a load without an error the simulator holds a circuit whose static equation stands. -/
theorem of_load {load : Call α} {r : Option Nat} (hload : load.isLoad)
    (hbuilt : ∀ c, load = .loadCircuit c → c.Built)
    (h : Simulator.perform budget load s = .ok r s') (herr : s'.lastError = none) :
    ∃ c e, c.Built ∧ c.staticEquation = .ok e ∧ Holds c e s' := by
  cases load with
  | loadCircuit c =>
    obtain ⟨_, s₁, hl, h⟩ := run_bind_eq_ok.1 h
    cases h
    exact of_loadCircuit (hbuilt c rfl) hl herr
  | loadComponents cs =>
    obtain ⟨_, s₁, hl, h⟩ := run_bind_eq_ok.1 h
    cases h
    exact of_loadComponents hl herr
  | loadDescription d =>
    obtain ⟨_, s₁, hl, h⟩ := run_bind_eq_ok.1 h
    cases h
    rw [loadDescription_eq] at hl
    split at hl
    · exact of_loadComponents hl herr
    · cases hl
    · cases hl
  | configure settings => cases hload
  | start => cases hload
  | stop => cases hload
  | advance milliseconds => cases hload

end Holds

end Simulator

end Nodal
