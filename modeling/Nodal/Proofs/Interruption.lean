import Nodal.Proofs.Budgets
import Nodal.Proofs.Cadence

/-! # Advances that a failing tick ends

Ticks change the state, the solution, the clocks and the random numbers. When one of them fails the
advance comes back at once, everything that is stored is zero, and only the clock remembers the
ticks before. The error stays until ticks succeed. -/

namespace Nodal.Simulator
variable {α : Type} [Scalar α] {s s' s₁ s₂ : Simulator α} {threshold milliseconds : α}
  {budget ticks steps n : Nat} {log : List (Event α)} {f : Failure α}

/-! ## What ticks leave alone -/

/-- What no tick changes. -/
structure Keeps (s s' : Simulator α) : Prop where
  circuit_eq : s'.circuit = s.circuit
  equation_eq : s'.equation = s.equation
  settings_eq : s'.settings = s.settings
  running_eq : s'.running = s.running
  lastError_eq : s'.lastError = s.lastError

theorem Keeps.spend (h : Keeps s s') : Keeps s s'.spend :=
  ⟨h.circuit_eq, h.equation_eq, h.settings_eq, h.running_eq, h.lastError_eq⟩

theorem Keeps.tick (h : Keeps s s₁) (ht : tick budget s₁ = .ok () s') : Keeps s s' := by
  obtain ⟨e₀, companions, e, x, state, newton, -, -, -, -, rfl⟩ := tick_inv ht
  exact ⟨h.circuit_eq, h.equation_eq, h.settings_eq, h.running_eq, h.lastError_eq⟩

theorem Ticks.keeps (h : Ticks threshold budget s log s') : Keeps s s' :=
  h.induction (fun _ hs => hs.spend) Keeps.tick ⟨rfl, rfl, rfl, rfl, rfl⟩

theorem Ticks.smooth (h : Ticks threshold budget s log s') : Smooth log := by
  intro event hevent
  obtain ⟨before, after, rfl⟩ := h.ticked event hevent
  rfl

/-- The time of the last tick of a log, `t` when there is none. -/
def timeAfter (t : α) : List (Event α) → α
  | [] => t
  | .ticked _ after :: log => timeAfter after.time log
  | _ :: log => timeAfter t log

theorem Ticks.time_eq (h : Ticks threshold budget s log s') : s'.time = timeAfter s.time log := by
  induction h with
  | done s => rfl
  | more _ _ _ ih => exact ih

/-! ## What a failing tick leaves -/

/-- What is left when a tick has failed with `f` after the ticks of `log`: the same circuit at rest,
at the time of the last of these ticks. -/
structure Interrupted (s : Simulator α) (log : List (Event α)) (f : Failure α)
    (s' : Simulator α) : Prop where
  circuit_eq : s'.circuit = s.circuit
  equation_eq : s'.equation = s.equation
  settings_eq : s'.settings = s.settings
  running_eq : s'.running = s.running
  time_eq : s'.time = timeAfter s.time log
  remaining_eq : s'.remaining = 0
  lastError_eq : s'.lastError = some f
  state_eq : s'.state = s.circuit.components.map fun d =>
    (d.id, ⟨List.replicate d.nodes.length 0, List.replicate d.device.numCurrents 0⟩)
  solution_eq : s'.solution = List.replicate (s.circuit.numNodes + s.circuit.numSources) 0

theorem Ticks.interrupted (h : Ticks threshold budget (s.receive milliseconds) log s₁)
    (ht : tick budget s₁ = .error (.failed f) s₂) : Interrupted s log f (s₂.fail f) := by
  obtain ⟨newton, -, rfl⟩ := tick_failed_inv ht
  have hkeeps := h.keeps
  have hcircuit : s₁.circuit = s.circuit := hkeeps.circuit_eq
  refine ⟨hcircuit, hkeeps.equation_eq, hkeeps.settings_eq, hkeeps.running_eq, h.time_eq, rfl, rfl,
    ?_, ?_⟩
  · rw [← hcircuit]
    rfl
  · rw [← hcircuit]
    rfl

/-! ## Every advance that comes back -/

/-- What an advance has done, from the log of its attempts: all but the last have been successful,
and the last one decides about the error. -/
structure Attempted (s : Simulator α) (log : List (Event α)) (n : Nat) (s' : Simulator α) :
    Prop where
  count : n = log.countP fun event => !event.isFailed
  smooth : Smooth log.dropLast
  idle : log = [] → s'.lastError = s.lastError
  lastError : ∀ last ∈ log.getLast?, (s'.lastError.isSome ↔ last.isFailed)
  interrupted : ∀ f, .failed f ∈ log → Interrupted s log.dropLast f s'

omit [Scalar α] in
theorem Smooth.countP (h : Smooth log) : (log.countP fun event => !event.isFailed) = log.length :=
  List.countP_eq_length.2 fun event hevent => by rw [h event hevent]; rfl

theorem attempted_of_smooth (hn : n = log.length) (hsmooth : Smooth log)
    (hlast : s'.lastError = if 0 < n then none else s.lastError) : Attempted s log n s' where
  count := hn.trans hsmooth.countP.symm
  smooth event hevent := hsmooth event (List.mem_of_mem_dropLast hevent)
  idle hnil := by rw [hlast, hn, hnil]; rfl
  lastError last hmem := by
    have hmem := List.mem_of_getLast? hmem
    rw [hlast, hn, if_pos (List.length_pos_of_mem hmem), hsmooth last hmem]
    exact Iff.rfl
  interrupted f hf := nomatch hsmooth _ hf

theorem attempted_of_failed (hn : n = log.length) (hsmooth : Smooth log)
    (h : Interrupted s log f s') : Attempted s (log ++ [.failed f]) n s' where
  count := by
    rw [List.countP_append, hsmooth.countP, hn]
    rfl
  smooth := by rwa [List.dropLast_concat]
  idle hnil := nomatch List.append_eq_nil_iff.1 hnil
  lastError last hmem := by
    rw [List.getLast?_concat, Option.mem_some_iff] at hmem
    rw [← hmem, h.lastError_eq]
    exact Iff.rfl
  interrupted g hg := by
    rw [List.dropLast_concat]
    rcases List.mem_append.1 hg with hg | hg
    · exact nomatch hsmooth _ hg
    · cases List.mem_singleton.1 hg
      exact h

theorem attempted_of_advance (h : advance budget milliseconds s = .ok n s') :
    Attempted s (advanceLog budget milliseconds s) n s' := by
  rcases advance_cases h with ⟨hlog, rfl, rfl⟩ | ⟨-, -, hended⟩
  · rw [hlog]
    exact attempted_of_smooth rfl (List.forall_mem_nil _) (if_neg (Nat.lt_irrefl 0)).symm
  generalize advanceLog budget milliseconds s = log at hended
  cases hended with
  | waiting hticks _ =>
    refine attempted_of_smooth rfl hticks.smooth ?_
    unfold settled
    split
    · rfl
    · exact hticks.keeps.lastError_eq
  | failed hticks _ ht => exact attempted_of_failed rfl hticks.smooth (hticks.interrupted ht)

/-- The first tick of an advance starts from the simulator with its new time. -/
theorem before_of_advanceLog {before after : Simulator α}
    (h : advanceLog budget milliseconds s = .ticked before after :: log) :
    before = s.receive milliseconds := by
  by_cases hboth : s.running ∧ s.isReady
  case neg => exact nomatch (advance_idle hboth budget milliseconds).2.symm.trans h
  rw [advanceLog_eq hboth.1 hboth.2] at h
  by_cases hle : s.threshold ≤ (s.receive milliseconds).remaining
  case neg => exact nomatch (ticksLog_waiting hle budget budget).symm.trans h
  cases budget with
  | zero => cases h
  | succ budget =>
    rw [ticksLog, attempted, if_pos hle, List.filterMap_cons, Moment.event?] at h
    cases ht : tick (budget + 1) (s.receive milliseconds) with
    | ok u s₁ =>
      rw [ht] at h
      cases h
      rfl
    | error halt s₁ =>
      rw [ht] at h
      cases halt <;> cases h

/-- When a tick fails the advance comes back with the number of ticks before it, and leaves what the
failing tick has left, with its error. Nothing else is left of these ticks but the time; the circuit
stays, with zero everywhere, and the next advance starts from there. Every advance of a running
simulator ends in this way or because not enough time is left. An error is kept when the last
attempted tick has failed, and forgotten when it has not; without an attempt all is as before. -/
theorem failing_tick_ends_advance :
    (∀ (s : Simulator α) (milliseconds : α) budget log s₁ f s₂, s.running → s.isReady →
      Ticks s.threshold budget (s.receive milliseconds) log s₁ → s.threshold ≤ s₁.remaining →
      tick budget s₁ = .error (.failed f) s₂ →
      (∀ budget', budget ≤ budget' → log.length < budget' →
        advance budget' milliseconds s = .ok log.length (s₂.fail f) ∧
          advanceLog budget' milliseconds s = log ++ [.failed f]) ∧
      Interrupted s log f (s₂.fail f) ∧
      ∀ budget' milliseconds' before after log',
        advanceLog budget' milliseconds' (s₂.fail f) = .ticked before after :: log' →
        before.state = (s₂.fail f).state ∧ before.solution = (s₂.fail f).solution ∧
          before.time = (s₂.fail f).time) ∧
    (∀ (s : Simulator α) (milliseconds : α) budget n s',
      advance budget milliseconds s = .ok n s' →
      (s.running → s.isReady →
        Ended budget milliseconds s (advanceLog budget milliseconds s) n s') ∧
      Attempted s (advanceLog budget milliseconds s) n s') ∧
    ∀ (s : Simulator α) (milliseconds : α) budget, ¬ (s.running ∧ s.isReady) →
      advance budget milliseconds s = .ok 0 s := by
  refine ⟨?_, fun s milliseconds budget n s' h => ⟨fun hrunning hready =>
    ended_of_advance hrunning hready h, attempted_of_advance h⟩,
    fun s milliseconds budget h => (advance_idle h budget milliseconds).1⟩
  intro s milliseconds budget log s₁ f s₂ hrunning hready hticks hle ht
  refine ⟨fun budget' hbudget hlen => ?_, hticks.interrupted ht, ?_⟩
  · exact advance_of_failed hrunning hready (hticks.extend hbudget) hle
      ((tick_extends hbudget).eq_failed ht) hlen
  · intro budget' milliseconds' before after log' hlog
    rw [before_of_advanceLog hlog]
    exact ⟨rfl, rfl, rfl⟩

/-- A diode behind a source whose voltage grows. -/
def swelling : List (Component ℚ) :=
  [⟨⟨0⟩, "V0", .voltageSource .ground ⟨1⟩ (.sine 1 1 0) none⟩,
    ⟨⟨1⟩, "D1", .diode ⟨1⟩ .ground ⟨1, 1000⟩⟩]

/-- One tick in a second, for which the solver has two attempts of one round. -/
def oneRound : SimulatorSettings ℚ :=
  { timestep := 1
    rate := 1
    seed := defaultSeed
    newton := { (.standard : NewtonSettings ℚ) with
      maxIterations := 1
      maxRestarts := 2
      tolerance := 2
      minAlpha := 1 } }

def startedSwelling : Simulator ℚ :=
  after (perform 4 .start (after (perform 4 (.configure oneRound)
    (after (perform 4 (.loadComponents swelling) .initial)))))

theorem reachable_startedSwelling : Reachable startedSwelling := by
  have hloaded : Reachable (after (perform 4 (.loadComponents swelling) .initial)) :=
    Reachable.initial.call trivial (by decide +kernel)
  have hconfigured : Reachable (after (perform 4 (.configure oneRound)
      (after (perform 4 (.loadComponents swelling) .initial)))) :=
    hloaded.call trivial (by decide +kernel)
  exact hconfigured.call trivial (by decide +kernel)

/-- Of three seconds that have come in, the first is taken and the second is not. For the second the
solver has drawn two random numbers, and the third is not attempted. -/
theorem failing_tick_ends_advance_swelling :
    ∃ (s₁ s₂ : Simulator ℚ) (f : Failure ℚ), Reachable startedSwelling ∧
      tick 4 (startedSwelling.receive 3000) = .ok () s₁ ∧
      tick 4 s₁.spend = .error (.failed f) s₂ ∧ (s₂.fail f).newton.draws.count = 2 ∧
      advance 4 3000 startedSwelling = .ok 1 (s₂.fail f) ∧ (s₂.fail f).time = 1 ∧
      Interrupted startedSwelling [.ticked (startedSwelling.receive 3000) s₁] f (s₂.fail f) := by
  let s₁ := after (tick 4 (startedSwelling.receive 3000))
  obtain ⟨⟨⟩, ht₁⟩ := exists_of_succeeds (r := tick 4 (startedSwelling.receive 3000))
    (by decide +kernel)
  have hticks : Ticks startedSwelling.threshold 4 (startedSwelling.receive 3000) _ s₁.spend :=
    .more (by decide +kernel) ht₁ (.done _)
  obtain ⟨f, ht₂⟩ := exists_of_fails (r := tick 4 s₁.spend) (by decide +kernel)
  obtain ⟨hadvance, hleft, -⟩ := failing_tick_ends_advance.1 startedSwelling 3000 4 _ _ f _
    (by decide +kernel) (by decide +kernel) hticks (by decide +kernel) ht₂
  have hdraws : (after (tick 4 s₁.spend)).newton.draws.count = 2 := by decide +kernel
  refine ⟨s₁, _, f, reachable_startedSwelling, ht₁, ht₂, hdraws,
    (hadvance 4 le_rfl (Nat.succ_lt_succ (Nat.zero_lt_succ _))).1, ?_, hleft⟩
  rw [hleft.time_eq]
  show s₁.time = 1
  decide +kernel

end Nodal.Simulator
