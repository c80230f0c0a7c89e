import Nodal.Proofs.Numbering
import Nodal.Proofs.Runs

/-! # Simulators that calls lead to

A run starts from the initial simulator and makes calls that come back, with a result or with an
error. What a call has done to the simulator is one of a few steps (`Step`), so a property of all
runs needs a case for each of them (`Run.induction`). A run keeps a log of its loads and its
ticks. -/

namespace Nodal

theorem Circuit.numbered_unloaded {α : Type} : (unloaded : Circuit α).Numbered := ⟨.nil, rfl⟩

theorem Circuit.Built.numbered {α : Type} {c : Circuit α} (h : c.Built) : c.Numbered := by
  obtain ⟨cs, hcs⟩ := h
  exact numbered_of_ofComponents hcs

namespace Simulator

variable {α β γ : Type} [Scalar α]

/-! ## Steps of a call -/

/-- What calls do to a simulator, with its log. -/
inductive Step : Simulator α → List (Event α) → Simulator α → Prop
  | idle (s : Simulator α) : Step s [] s
  | configured {settings : SimulatorSettings α} (s : Simulator α) : settings.validate = .ok () →
      Step s [] { s with settings, newton := solverOf settings }
  | switched (s : Simulator α) (running : Bool) : Step s [] { s with running }
  | loaded {c : Circuit α} {e : Equation α} (s : Simulator α) : c.Numbered →
      c.staticEquation = .ok e →
      Step s [.loaded] (reset { s with
        circuit := c, remaining := 0, time := 0, equation := some e, lastError := none })
  | refused {c : Circuit α} {f : Failure α} (s : Simulator α) (shown : Failure α) : c.Numbered →
      c.staticEquation = .error (.failed f) →
      Step s [.loaded] (reset { s with
        circuit := c, remaining := 0, time := 0, equation := none, lastError := some shown })
  | waited {s : Simulator α} (milliseconds : α) : s.running → s.isReady →
      ¬ s.threshold ≤ (s.receive milliseconds).remaining → Step s [] (s.receive milliseconds)
  | advanced {s s' : Simulator α} {milliseconds : α} {budget : Nat} {log : List (Event α)} :
      s.running → s.isReady → log ≠ [] →
      Ticks s.threshold budget (s.receive milliseconds) log s' → ¬ s.threshold ≤ s'.remaining →
      Step s log { s' with lastError := none }
  | failed {s s₁ s₂ : Simulator α} {milliseconds : α} {budget : Nat} {log : List (Event α)}
      {f : Failure α} : s.running → s.isReady →
      Ticks s.threshold budget (s.receive milliseconds) log s₁ → s.threshold ≤ s₁.remaining →
      tick budget s₁ = .error (.failed f) s₂ → Step s (log ++ [.failed f]) (s₂.fail f)

/-- Steps one after the other. -/
inductive Steps : Simulator α → List (Event α) → Simulator α → Prop
  | done (s : Simulator α) : Steps s [] s
  | next {s s₁ s' : Simulator α} {log log' : List (Event α)} : Step s log s₁ → Steps s₁ log' s' →
      Steps s (log ++ log') s'

theorem Step.steps {s s' : Simulator α} {log : List (Event α)} (h : Step s log s') :
    Steps s log s' := by
  have := Steps.next h (.done s')
  rwa [List.append_nil] at this

/-- The computation has come back, with a result or an error that a caller handles, and has left
`s'` behind. -/
def Returns (s' : Simulator α) : EStateM.Result (Halt α) (Simulator α) β → Prop
  | .ok _ s => s = s'
  | .error (.failed _) s => s = s'
  | .error _ _ => False

/-- The circuit of a call is made of components. -/
def Call.Proper : Call α → Prop
  | .loadCircuit c => c.Built
  | _ => True

def Call.log (budget : Nat) (s : Simulator α) : Call α → List (Event α)
  | .loadCircuit _ | .loadComponents _ => [.loaded]
  | .loadDescription d =>
    match d.simulation.validate, d.toComponents with
    | .ok (), .ok _ => [.loaded]
    | _, _ => []
  | .advance milliseconds => advanceLog budget milliseconds s
  | _ => []

/-- A run of calls from the initial simulator, with its log. Each call has a budget of its own. -/
inductive Run : List (Event α) → Simulator α → Prop
  | initial : Run [] initial
  | call {log : List (Event α)} {s s' : Simulator α} (call : Call α) (budget : Nat) : Run log s →
      call.Proper → Returns s' (perform budget call s) → Run (log ++ call.log budget s) s'

/-- Some run leads to the simulator. -/
def Reachable (s : Simulator α) : Prop := ∃ log, Run log s

variable {s s₁ s' : Simulator α} {budget : Nat}

theorem Reachable.initial : Reachable (.initial : Simulator α) := ⟨[], .initial⟩

theorem Reachable.call {call : Call α} (h : Reachable s) (hcall : call.Proper)
    (hok : succeeds (perform budget call s)) : Reachable (after (perform budget call s)) := by
  obtain ⟨log, h⟩ := h
  obtain ⟨r, hperform⟩ := exists_of_succeeds hok
  exact ⟨_, h.call call budget hcall (by rw [hperform]; rfl)⟩

theorem step_of_configure {settings : SimulatorSettings α} (h : Returns s' (configure settings s)) :
    Step s [] s' := by
  unfold configure at h
  split at h
  · rename_i hv
    cases h
    exact .configured s hv
  · cases h
    exact .idle s

theorem step_of_loadCircuit {c : Circuit α} (hc : c.Numbered) (h : Returns s' (loadCircuit c s)) :
    Step s [.loaded] s' := by
  unfold loadCircuit at h
  split at h
  · rename_i e he
    cases h
    exact .loaded s hc he
  · rename_i f hf
    cases h
    exact .refused s f hc hf
  · rename_i halt hne _
    cases halt with
    | failed f => exact absurd rfl (hne f)
    | misuse m => cases h
    | exhausted => cases h

theorem step_of_loadComponents {cs : List (Component α)} (h : Returns s' (loadComponents cs s)) :
    Step s [.loaded] s' := by
  unfold loadComponents at h
  cases hc : Circuit.ofComponents cs with
  | ok c =>
    rw [hc] at h
    exact step_of_loadCircuit (Circuit.numbered_of_ofComponents hc) h
  | error f =>
    -- no component is left, and the simulator shows why
    rw [hc] at h
    cases h
    exact .refused s f Circuit.numbered_unloaded rfl

theorem takeTicks_returns {threshold : α} {ticks steps : Nat} {halt : Halt α}
    (h : takeTicks threshold budget ticks steps s = .error halt s₁) :
    ¬ Returns s' (.error halt s₁ : EStateM.Result (Halt α) (Simulator α) β) := by
  cases halt with
  | failed f => exact absurd h takeTicks_ne_failed
  | misuse m => exact id
  | exhausted => exact id

theorem ok_of_returns_advance {milliseconds : α} (h : Returns s' (advance budget milliseconds s)) :
    ∃ n, advance budget milliseconds s = .ok n s' := by
  by_cases hboth : s.running ∧ s.isReady
  case neg =>
    have hidle := (advance_idle hboth budget milliseconds).1
    rw [hidle] at h
    cases h
    exact ⟨0, hidle⟩
  rw [advance_eq hboth.1 hboth.2] at h ⊢
  split at h
  · cases h
    exact ⟨_, rfl⟩
  · rename_i htake
    exact absurd h (takeTicks_returns htake)

theorem step_of_advance {milliseconds : α} (h : Returns s' (advance budget milliseconds s)) :
    Step s (advanceLog budget milliseconds s) s' := by
  obtain ⟨n, hadvance⟩ := ok_of_returns_advance h
  rcases advance_cases hadvance with ⟨hlog, -, rfl⟩ | ⟨hrunning, hready, hended⟩
  · rw [hlog]
    exact .idle s'
  generalize advanceLog budget milliseconds s = log at hended
  cases hended with
  | waiting hticks hle =>
    cases log with
    | nil =>
      cases hticks
      exact .waited milliseconds hrunning hready hle
    | cons event log =>
      exact .advanced hrunning hready (List.cons_ne_nil _ _) hticks hle
  | failed hticks hle ht => exact .failed hrunning hready hticks hle ht

theorem steps_of_loadDescription {d : Description α} (h : Returns s' (loadDescription d s)) :
    Steps s (Call.log budget s (.loadDescription d)) s' := by
  rw [loadDescription_eq] at h
  split at h
  · rename_i hv hd
    simp only [Call.log, hv, hd]
    exact .next (.configured s hv) (step_of_loadComponents h).steps
  · rename_i hv hd
    cases h
    simp only [Call.log, hv, hd]
    exact (Step.configured s hv).steps
  · rename_i hv
    cases h
    simp only [Call.log, hv]
    exact .done s

omit [Scalar α] in
theorem returns_of_bind {m : Changing α β} {b : β → γ} (h : Returns s' ((do return b (← m)) s)) :
    Returns s' (m s) := by
  simp only [bind, EStateM.bind] at h
  split at h
  · rename_i hm
    rw [hm]
    exact h
  · rename_i halt s₁ hm
    rw [hm]
    cases halt <;> exact h

/-- A call that comes back has taken steps. -/
theorem steps_of_perform {call : Call α} (hcall : call.Proper)
    (h : Returns s' (perform budget call s)) : Steps s (call.log budget s) s' := by
  cases call with
  | configure settings => exact (step_of_configure (returns_of_bind h)).steps
  | loadCircuit c => exact (step_of_loadCircuit hcall.numbered (returns_of_bind h)).steps
  | loadComponents cs => exact (step_of_loadComponents (returns_of_bind h)).steps
  | loadDescription d => exact steps_of_loadDescription (returns_of_bind h)
  | start =>
    cases h
    exact (Step.switched s true).steps
  | stop =>
    cases h
    exact (Step.switched s false).steps
  | advance milliseconds => exact (step_of_advance (returns_of_bind h)).steps

/-- What holds in the beginning and is kept by every step holds after every run. -/
theorem Run.induction {P : List (Event α) → Simulator α → Prop} (h₀ : P [] Simulator.initial)
    (hstep : ∀ {log s log' s'}, P log s → Step s log' s' → P (log ++ log') s')
    {log : List (Event α)} (h : Run log s) : P log s := by
  have hsteps : ∀ {log s log' s'}, Steps s log' s' → P log s → P (log ++ log') s' := by
    intro log s log' s' h hs
    induction h generalizing log with
    | done s => rwa [List.append_nil]
    | next h _ ih =>
      rw [← List.append_assoc]
      exact ih (hstep hs h)
  induction h with
  | initial => exact h₀
  | call call budget _ hcall hreturns ih => exact hsteps (steps_of_perform hcall hreturns) ih

/-- Carries out calls one after the other and keeps the log; there is no result once a call does not
come back. -/
def replay (budget : Nat) : List (Call α) → List (Event α) → Simulator α →
    Option (List (Event α) × Simulator α)
  | [], log, s => some (log, s)
  | call :: calls, log, s =>
    match perform budget call s with
    | .ok _ s' => replay budget calls (log ++ call.log budget s) s'
    | .error (.failed _) s' => replay budget calls (log ++ call.log budget s) s'
    | .error _ _ => none

theorem Run.replay {calls : List (Call α)} {log log' : List (Event α)} (h : Run log s)
    (hcalls : ∀ call ∈ calls, call.Proper)
    (hreplay : Simulator.replay budget calls log s = some (log', s')) : Run log' s' := by
  induction calls generalizing log s with
  | nil =>
    cases hreplay
    exact h
  | cons call calls ih =>
    obtain ⟨hcall, hcalls⟩ := List.forall_mem_cons.1 hcalls
    rw [Simulator.replay] at hreplay
    split at hreplay
    · rename_i s₁ hperform
      exact ih (.call call budget h hcall (by rw [hperform]; rfl)) hcalls hreplay
    · rename_i s₁ hperform
      exact ih (.call call budget h hcall (by rw [hperform]; rfl)) hcalls hreplay
    · cases hreplay

end Simulator

end Nodal
