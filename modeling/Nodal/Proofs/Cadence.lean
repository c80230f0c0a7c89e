import Nodal.Proofs.CircuitLaws
import Nodal.Proofs.Failures
import Nodal.Proofs.Settling

/-! # How time is used up

An advance comes to an end, since every tick does and each uses up a timestep. The ticks it takes
depend on the time that waits and on nothing else, so it makes no difference in how many calls the
time arrives. -/

namespace Nodal.Simulator

section Logs
variable {α : Type}

def Event.isFailed : Event α → Bool
  | .failed _ => true
  | _ => false

/-- No tick has failed. -/
def Smooth (log : List (Event α)) : Prop := ∀ event ∈ log, event.isFailed = false

instance (log : List (Event α)) : Decidable (Smooth log) :=
  inferInstanceAs (Decidable (∀ event ∈ log, event.isFailed = false))

/-- The same event for changed simulators. -/
def Event.map (f : Simulator α → Simulator α) : Event α → Event α
  | .ticked before after => .ticked (f before) (f after)
  | .failed failure => .failed failure
  | .loaded => .loaded

theorem Smooth.append {log log' : List (Event α)} (h : Smooth log) (h' : Smooth log') :
    Smooth (log ++ log') :=
  List.forall_mem_append.2 ⟨h, h'⟩

theorem Smooth.map {log : List (Event α)} (h : Smooth log) (f : Simulator α → Simulator α) :
    Smooth (log.map (Event.map f)) := by
  refine List.forall_mem_map.2 fun event hevent => ?_
  have hevent := h event hevent
  cases event with
  | failed failure => exact hevent
  | _ => rfl

end Logs

section Exact
variable {α : Type} [ExactScalar α] {s s' s₁ : Simulator α} {budget enough : Nat}

/-! ## Every tick comes to an end -/

/-- The simulator can take ticks. -/
structure Ready (s : Simulator α) : Prop where
  consistent : s.Consistent
  configured : s.Configured
  isReady : s.isReady

theorem Ready.tick_settles (hs : s.Ready)
    (hshrinks : Newton.Shrinks s.settings.newton enough) :
    Settles enough (fun budget => tick budget) s fun _ => True := by
  obtain ⟨e₀, he₀⟩ := Option.isSome_iff_exists.1 hs.isReady
  have hstatic := hs.consistent.staticEquation_eq he₀
  obtain ⟨l, blank, hpart⟩ := Circuit.staticPart hs.consistent.numbered hstatic
  obtain ⟨ht, -, hnewton⟩ := SimulatorSettings.validate_ok hs.configured.valid
  obtain ⟨e, hstamp, -⟩ := hpart.stampTick_ok ht (s.time + s.settings.timestep) s.state
  obtain ⟨l, hstamped⟩ := Circuit.stamped_of_stampTick hs.consistent.numbered hstatic hstamp
  rw [← hs.configured.newton_eq] at hnewton hshrinks
  have hsolve := Equation.solveWith_settles (NewtonSettings.sound_of_validate hnewton) hshrinks
    hstamped.equation (Circuit.fits_nonlinear hstamped.circuit)
  unfold tick solveTick
  obtain ⟨x, newton, -, hsolve⟩ | ⟨f, newton, hsolve⟩ := hsolve
  · let state := s.circuit.statesOf s.settings.timestep s.state x
    let time := s.time + s.settings.timestep
    refine .inl ⟨(), { s with solution := 0 :: x, state, time, newton }, trivial,
      fun budget hle => ?_⟩
    simp only [he₀, hstamp, hsolve budget hle, hstamped.deriveState_eq]
    rfl
  · refine .inr ⟨f, { s with newton }, fun budget hle => ?_⟩
    simp only [he₀, hstamp, hsolve budget hle]

theorem Ready.tick (hs : s.Ready) (ht : Simulator.tick budget s = .ok () s') : s'.Ready := by
  refine ⟨hs.consistent.tick ht, hs.configured.tick ht, ?_⟩
  obtain ⟨e₀, companions, e, x, state, newton, he, -, -, -, rfl⟩ := tick_inv ht
  exact hs.isReady

theorem Ready.of_eq (hs : s.Ready) (hcircuit : s'.circuit = s.circuit)
    (hequation : s'.equation = s.equation) (hsettings : s'.settings = s.settings)
    (hnewton : s'.newton = s.newton) : s'.Ready :=
  ⟨hs.consistent.of_eq hcircuit hequation, hs.configured.of_eq hsettings (hnewton ▸ rfl), by
    rw [Simulator.isReady, hequation]
    exact hs.isReady⟩

theorem Ready.receive (hs : s.Ready) (milliseconds : α) : (s.receive milliseconds).Ready :=
  hs.of_eq rfl rfl rfl rfl

/-- The clock after successful ticks, and the time that has been there for each of them. -/
structure Clock (threshold : α) (s : Simulator α) (n : Nat) (s' : Simulator α) : Prop where
  settings_eq : s'.settings = s.settings
  running_eq : s'.running = s.running
  lastError_eq : s'.lastError = s.lastError
  time_eq : s'.time = s.time + n * s.settings.timestep
  remaining_eq : s'.remaining = s.remaining - n * s.settings.timestep
  enough : ∀ k < n, threshold ≤ s.remaining - k * s.settings.timestep

theorem Ticks.clock {threshold : α} {log : List (Event α)} (h : Ticks threshold budget s log s') :
    Clock threshold s log.length s' := by
  induction h with
  | done s => exact ⟨rfl, rfl, rfl, by simp, by simp, nofun⟩
  | more hle ht _ ih =>
    obtain ⟨e₀, companions, e, x, state, newton, -, -, -, -, rfl⟩ := tick_inv ht
    refine ⟨ih.settings_eq, ih.running_eq, ih.lastError_eq, ?_, ?_, ?_⟩
    · rw [ih.time_eq, List.length_cons]
      simp only [spend]
      push_cast
      ring
    · rw [ih.remaining_eq, List.length_cons]
      simp only [spend]
      push_cast
      ring
    · rintro (_ | k) hk
      · simpa using hle
      · have := ih.enough k (Nat.lt_of_succ_lt_succ hk)
        simp only [spend] at this
        push_cast
        linarith

theorem Ticks.append {threshold : α} {log log' : List (Event α)}
    (h : Ticks threshold budget s log s₁) (h' : Ticks threshold budget s₁ log' s') :
    Ticks threshold budget s (log ++ log') s' := by
  induction h with
  | done s => exact h'
  | more hle ht _ ih => exact .more hle ht (ih h')

/-- So many ticks use up the time that waits. -/
theorem takeTicks_settles {threshold : α} {most : Nat} (steps : Nat) (hs : s.Ready)
    (hshrinks : Newton.Shrinks s.settings.newton enough)
    (hmost : s.remaining - most * s.settings.timestep < threshold) :
    ∃ n failed log s', ∀ budget, enough ≤ budget → ∀ ticks, most ≤ ticks →
      takeTicks threshold budget ticks steps s = .ok (n, failed) s' ∧
        ticksLog threshold budget ticks s = log := by
  induction most generalizing s steps with
  | zero =>
    have hle : ¬ threshold ≤ s.remaining := by simpa using hmost
    exact ⟨steps, false, [], s, fun budget _ ticks _ =>
      takeTicks_of_ticks steps (.done s) hle (Nat.zero_le ticks)⟩
  | succ most ih =>
    by_cases hle : threshold ≤ s.remaining
    case neg =>
      exact ⟨steps, false, [], s, fun budget _ ticks _ =>
        takeTicks_of_ticks steps (.done s) hle (Nat.zero_le ticks)⟩
    obtain ⟨⟨⟩, s₁, -, htick⟩ | ⟨f, s₁, htick⟩ := hs.tick_settles hshrinks
    · have hclock := (Ticks.more hle (htick enough le_rfl) (.done _)).clock
      have hs₁ : s₁.spend.Ready := (hs.tick (htick enough le_rfl)).of_eq rfl rfl rfl rfl
      obtain ⟨n, failed, log, s', h⟩ := ih (steps + 1) hs₁ (hclock.settings_eq ▸ hshrinks) (by
        rw [hclock.settings_eq, hclock.remaining_eq]
        push_cast at hmost ⊢
        simp only [List.length_singleton, Nat.cast_one]
        linarith)
      refine ⟨n, failed, .ticked s s₁ :: log, s', fun budget hbudget ticks hticks => ?_⟩
      obtain ⟨ticks, rfl⟩ := Nat.exists_eq_add_of_le' (Nat.one_le_of_lt hticks)
      obtain ⟨htake, hlog⟩ := h budget hbudget ticks (Nat.le_of_succ_le_succ hticks)
      have ht := htick budget hbudget
      rw [takeTicks_ticked hle ht, ticksLog_ticked hle ht, htake, hlog]
      exact ⟨rfl, rfl⟩
    · refine ⟨steps, true, [.failed f], s₁.fail f, fun budget hbudget ticks hticks => ?_⟩
      obtain ⟨ticks, rfl⟩ := Nat.exists_eq_add_of_le' (Nat.one_le_of_lt hticks)
      have ht := htick budget hbudget
      exact ⟨takeTicks_failed hle ht, ticksLog_failed hle ht⟩

/-! ## Advances -/

/-- With any budget that is large enough the advance takes `n` ticks, leaves this log, and leads to
`s'`. -/
def Advances (milliseconds : α) (s : Simulator α) (n : Nat) (log : List (Event α))
    (s' : Simulator α) : Prop :=
  ∃ enough, ∀ budget, enough ≤ budget →
    advance budget milliseconds s = .ok n s' ∧ advanceLog budget milliseconds s = log

section Running
variable {milliseconds : α}

/-- Every advance of a running simulator comes to an end. -/
theorem Ready.exists_advances [Archimedean α] (hs : s.Ready) (hrunning : s.running)
    (milliseconds : α) : ∃ n log s', Advances milliseconds s n log s' := by
  obtain ⟨ht, -, hnewton⟩ := SimulatorSettings.validate_ok hs.configured.valid
  obtain ⟨enough, hshrinks⟩ := Newton.exists_shrinks (NewtonSettings.sound_of_validate hnewton)
  obtain ⟨most, hmost⟩ := exists_lt_nsmul ((Scalar.isPositive_iff _).1 ht)
    ((s.receive milliseconds).remaining - s.threshold)
  rw [nsmul_eq_mul] at hmost
  have hused : (s.receive milliseconds).remaining -
      most * (s.receive milliseconds).settings.timestep < s.threshold := by
    show (s.receive milliseconds).remaining - most * s.settings.timestep < s.threshold
    linarith
  obtain ⟨n, failed, log, s', h⟩ := takeTicks_settles 0 (hs.receive milliseconds) hshrinks hused
  refine ⟨n, log, if failed then s' else settled n s', enough + most, fun budget hbudget => ?_⟩
  obtain ⟨htake, hlog⟩ := h budget (by omega) budget (by omega)
  rw [advance_eq hrunning hs.isReady, advanceLog_eq hrunning hs.isReady, htake]
  exact ⟨rfl, hlog⟩

theorem advance_inv {n : Nat} (hrunning : s.running) (hready : s.isReady)
    (h : advance budget milliseconds s = .ok n s')
    (hlog : Smooth (advanceLog budget milliseconds s)) :
    ∃ s₁, Ticks s.threshold budget (s.receive milliseconds) (advanceLog budget milliseconds s) s₁ ∧
      n = (advanceLog budget milliseconds s).length ∧ ¬ s.threshold ≤ s₁.remaining ∧
      s' = settled n s₁ := by
  have hended := ended_of_advance hrunning hready h
  generalize advanceLog budget milliseconds s = log at hended hlog
  cases hended with
  | @waiting _ s₁ hticks hle => exact ⟨s₁, hticks, rfl, hle, rfl⟩
  | @failed log _ _ f =>
    exact nomatch hlog (.failed f) (List.mem_append_right _ List.mem_cons_self)

end Running

/-! ## Time in two parts -/

/-- More time waits, and another error is kept. -/
def shift (extra : α) (lastError : Option (Failure α)) (s : Simulator α) : Simulator α :=
  { s with remaining := s.remaining + extra, lastError }

section Shift
variable {extra : α} {lastError : Option (Failure α)}

/-- A tick reads neither the time that waits nor the error. -/
theorem tick_shift (h : tick budget s = .ok () s') :
    tick budget (s.shift extra lastError) = .ok () (s'.shift extra lastError) := by
  obtain ⟨e₀, companions, e, x, state, newton, he, hstamp, hsolve, hstate, rfl⟩ := tick_inv h
  unfold tick solveTick
  simp only [shift, he, hstamp, hsolve, hstate]

/-- With more time at least the same ticks are taken. -/
theorem Ticks.shift {threshold : α} {log : List (Event α)} (hextra : 0 ≤ extra)
    (lastError : Option (Failure α)) (h : Ticks threshold budget s log s') :
    Ticks threshold budget (s.shift extra lastError) (log.map (Event.map (·.shift extra lastError)))
      (s'.shift extra lastError) := by
  induction h with
  | done s => exact .done _
  | @more s s₁ s' log hle ht _ ih =>
    have hspend : (s₁.shift extra lastError).spend = s₁.spend.shift extra lastError := by
      simp only [spend, Simulator.shift, add_sub_right_comm]
    refine .more (hle.trans (le_add_of_nonneg_right hextra)) (tick_shift ht) ?_
    rw [hspend]
    exact ih

end Shift

theorem receive_add (a b : α) (s : Simulator α) (lastError : Option (Failure α)) :
    ((s.receive a).shift (b / 1000.0 * s.settings.rate) lastError) =
      { s.receive (a + b) with lastError } := by
  simp only [shift, receive, add_div, add_mul, add_assoc]

theorem receive_settled (n : Nat) (b : α) (s : Simulator α) (lastError : Option (Failure α)) :
    ((settled n s).receive b).shift 0 lastError =
      s.shift (b / 1000.0 * s.settings.rate) lastError := by
  unfold settled
  split <;> simp only [shift, receive, add_zero]

/-- The log of ticks taken at once, from their logs in two parts. -/
def joined (extra : α) (lastError : Option (Failure α)) (log log' : List (Event α)) :
    List (Event α) :=
  log.map (Event.map (shift extra lastError)) ++ log'.map (Event.map (shift 0 lastError))

theorem length_joined (extra : α) (lastError : Option (Failure α)) (log log' : List (Event α)) :
    (joined extra lastError log log').length = log.length + log'.length := by
  rw [joined, List.length_append, List.length_map, List.length_map]

/-- An error is forgotten by the first ticks or by the second, or there are none. -/
theorem settled_add {n₁ n₂ : Nat} {s₂ : Simulator α}
    (h : s₂.lastError = (settled n₁ s).lastError) :
    settled (n₁ + n₂) (s₂.shift 0 s.lastError) = settled n₂ s₂ := by
  obtain ⟨equation, circuit, state, solution, settings, running, time, remaining, lastError,
    newton⟩ := s₂
  unfold settled at h ⊢
  by_cases h₁ : 0 < n₁ <;> by_cases h₂ : 0 < n₂ <;> simp_all [shift]

/-- In two parts the time takes the same ticks as at once, and leads to the same simulator. -/
theorem advance_add {a b : α} {n₁ n₂ : Nat} {s₂ : Simulator α} (hrunning : s.running)
    (hready : s.isReady) (hrate : 0 < s.settings.rate) (hb : 0 ≤ b)
    (h₁ : advance budget a s = .ok n₁ s₁) (hsmooth₁ : Smooth (advanceLog budget a s))
    (h₂ : advance budget b s₁ = .ok n₂ s₂) (hsmooth₂ : Smooth (advanceLog budget b s₁))
    (hbudget : n₁ + n₂ ≤ budget) :
    advance budget (a + b) s = .ok (n₁ + n₂) s₂ ∧
      advanceLog budget (a + b) s = joined (b / 1000.0 * s.settings.rate) s.lastError
        (advanceLog budget a s) (advanceLog budget b s₁) := by
  obtain ⟨t₁, hticks₁, hn₁, -, rfl⟩ := advance_inv hrunning hready h₁ hsmooth₁
  have hclock := hticks₁.clock
  have hready₁ : t₁.isReady := hticks₁.isReady hready
  obtain ⟨t₂, hticks₂, hn₂, hend, rfl⟩ := advance_inv (s := settled n₁ t₁)
    (by rw [settled_running, hclock.running_eq]; exact hrunning)
    (by rw [settled_isReady]; exact hready₁) h₂ hsmooth₂
  have hthreshold : (settled n₁ t₁).threshold = s.threshold := by
    rw [threshold, settled_settings, hclock.settings_eq]
    rfl
  rw [hthreshold] at hticks₂ hend
  have hextra : 0 ≤ b / 1000.0 * s.settings.rate :=
    mul_nonneg (div_nonneg hb (by norm_num)) hrate.le
  have hshifted₁ := hticks₁.shift hextra s.lastError
  rw [receive_add] at hshifted₁
  have hshifted₂ := hticks₂.shift (le_refl (0 : α)) s.lastError
  rw [receive_settled, hclock.settings_eq] at hshifted₂
  have herror : t₂.lastError = (settled n₁ s).lastError := by
    rw [hticks₂.clock.lastError_eq]
    show (settled n₁ t₁).lastError = (settled n₁ s).lastError
    unfold settled
    split
    · rfl
    · exact hclock.lastError_eq
  have hlength : n₁ + n₂ = (joined (b / 1000.0 * s.settings.rate) s.lastError
      (advanceLog budget a s) (advanceLog budget b (settled n₁ t₁))).length := by
    rw [length_joined, ← hn₁, ← hn₂]
  rw [← settled_add herror, hlength]
  exact advance_of_ticks hrunning hready (hshifted₁.append hshifted₂) (by rwa [shift, add_zero])
    (hlength ▸ hbudget)

theorem Advances.add {a b : α} {n₁ n₂ : Nat} {log₁ log₂ : List (Event α)} {s₂ : Simulator α}
    (hrunning : s.running) (hready : s.isReady) (hrate : 0 < s.settings.rate) (hb : 0 ≤ b)
    (h₁ : Advances a s n₁ log₁ s₁) (hsmooth₁ : Smooth log₁) (h₂ : Advances b s₁ n₂ log₂ s₂)
    (hsmooth₂ : Smooth log₂) : ∃ log, Advances (a + b) s (n₁ + n₂) log s₂ ∧ Smooth log := by
  obtain ⟨enough₁, h₁⟩ := h₁
  obtain ⟨enough₂, h₂⟩ := h₂
  refine ⟨joined (b / 1000.0 * s.settings.rate) s.lastError log₁ log₂,
    ⟨enough₁ + enough₂ + (n₁ + n₂), fun budget hbudget => ?_⟩,
    (hsmooth₁.map _).append (hsmooth₂.map _)⟩
  obtain ⟨hadvance₁, rfl⟩ := h₁ budget (by omega)
  obtain ⟨hadvance₂, rfl⟩ := h₂ budget (by omega)
  exact advance_add hrunning hready hrate hb hadvance₁ hsmooth₁ hadvance₂ hsmooth₂ (by omega)

/-! ## How many ticks -/

/-- Ticks are taken as long as there is time, and no time is lost. -/
theorem Advances.time_used {milliseconds : α} {n : Nat} {log : List (Event α)}
    (hrunning : s.running) (hready : s.isReady) (h : Advances milliseconds s n log s')
    (hsmooth : Smooth log) :
    IsLeast {k : ℕ | s.remaining + milliseconds / 1000 * s.settings.rate -
        k * s.settings.timestep < s.settings.timestep * (1 - 1e-9)} n ∧
      log.length = n ∧ s'.time = s.time + n * s.settings.timestep ∧
      s'.time + s'.remaining = s.time + s.remaining + milliseconds / 1000 * s.settings.rate := by
  obtain ⟨enough, h⟩ := h
  obtain ⟨hadvance, rfl⟩ := h enough le_rfl
  obtain ⟨t, hticks, rfl, hend, rfl⟩ := advance_inv hrunning hready hadvance hsmooth
  have hclock := hticks.clock
  have hreceived : (s.receive milliseconds).remaining =
      s.remaining + milliseconds / 1000 * s.settings.rate := by
    norm_num [receive]
  have hremaining := hclock.remaining_eq
  rw [hreceived] at hremaining
  have htime : t.time = s.time + (advanceLog enough milliseconds s).length * s.settings.timestep :=
    hclock.time_eq
  refine ⟨⟨?_, fun k hk => ?_⟩, rfl, ?_, ?_⟩
  · rw [not_le, hremaining] at hend
    exact hend
  · by_contra hlt
    have hle := hclock.enough k (not_le.1 hlt)
    rw [hreceived] at hle
    exact not_lt.2 hle hk
  · rwa [settled_time]
  · rw [settled_time, settled_remaining, htime, hremaining]
    show s.time + (advanceLog enough milliseconds s).length * s.settings.timestep +
      (s.remaining + milliseconds / 1000 * s.settings.rate -
        (advanceLog enough milliseconds s).length * s.settings.timestep) = _
    ring

/-- Every advance of a running simulator comes to an end. When no tick fails it takes the least
number of ticks that leaves too little time for another, and no time is lost. Time that comes in two
parts takes as many ticks as time that comes at once, and leads to the same simulator. -/
theorem advance_by_cadence [Archimedean α] (hs : Reachable s) (hrunning : s.running)
    (hready : s.isReady) :
    (∀ milliseconds, ∃ n log s', Advances milliseconds s n log s') ∧
    (∀ milliseconds n log s', Advances milliseconds s n log s' → Smooth log →
      IsLeast {k : ℕ | s.remaining + milliseconds / 1000 * s.settings.rate -
          k * s.settings.timestep < s.settings.timestep * (1 - 1e-9)} n ∧
        log.length = n ∧ s'.time = s.time + n * s.settings.timestep ∧
        s'.time + s'.remaining = s.time + s.remaining + milliseconds / 1000 * s.settings.rate) ∧
    ∀ (a b : α) n₁ n₂ log₁ log₂ s₁ s₂, 0 ≤ b → Advances a s n₁ log₁ s₁ → Smooth log₁ →
      Advances b s₁ n₂ log₂ s₂ → Smooth log₂ →
      ∃ log, Advances (a + b) s (n₁ + n₂) log s₂ ∧ Smooth log := by
  obtain ⟨log, hrun⟩ := hs
  have hconf := hrun.configured
  have hall : s.Ready := ⟨hrun.consistent, hconf, hready⟩
  obtain ⟨-, hrate, -⟩ := SimulatorSettings.validate_ok hconf.valid
  refine ⟨hall.exists_advances hrunning, ?_, ?_⟩
  · rintro milliseconds n log s' h hsmooth
    exact h.time_used hrunning hready hsmooth
  · rintro a b n₁ n₂ log₁ log₂ s₁ s₂ hb h₁ hsmooth₁ h₂ hsmooth₂
    exact h₁.add hrunning hready ((Scalar.isPositive_iff _).1 hrate) hb hsmooth₁ h₂ hsmooth₂

/-! ## Linear circuits -/

/-- A tick of a linear circuit needs no budget. -/
theorem tick_linear (hlin : s.circuit.nonlinear = []) (budget budget' : Nat) :
    tick budget s = tick budget' s := by
  unfold tick solveTick Equation.solveWith
  simp only [hlin, List.isEmpty_nil, if_true]

theorem Ticks.linear {threshold : α} {log : List (Event α)} (h : Ticks threshold budget s log s')
    (hlin : s.circuit.nonlinear = []) (budget' : Nat) : Ticks threshold budget' s log s' := by
  induction h with
  | done s => exact .done s
  | more hle ht _ ih =>
    refine .more hle (tick_linear hlin _ _ ▸ ht) (ih ?_)
    obtain ⟨e₀, companions, e, x, state, newton, -, -, -, -, rfl⟩ := tick_inv ht
    exact hlin

/-- An advance of a linear circuit can be found with any budget that is enough for once. -/
theorem Advances.of_linear {milliseconds : α} {n : Nat} (hrunning : s.running)
    (hready : s.isReady) (hlin : s.circuit.nonlinear = [])
    (h : advance budget milliseconds s = .ok n s')
    (hsmooth : Smooth (advanceLog budget milliseconds s)) :
    Advances milliseconds s n (advanceLog budget milliseconds s) s' := by
  obtain ⟨t, hticks, rfl, hend, rfl⟩ := advance_inv hrunning hready h hsmooth
  exact ⟨_, fun budget' hbudget =>
    advance_of_ticks hrunning hready (hticks.linear hlin budget') hend hbudget⟩

end Exact

/-- The same simulator when it runs. -/
def startedCharging : Simulator ℚ := after (perform 2 .start beforeCharging)

theorem reachable_startedCharging : Reachable startedCharging := by
  have hloaded : Reachable beforeCharging := Reachable.initial.call trivial (by decide +kernel)
  exact hloaded.call trivial (by decide +kernel)

/-- Five milliseconds are enough for a tick, and it makes no difference how they arrive. -/
theorem advance_by_cadence_charging :
    ∃ (s : Simulator ℚ) (log : List (Event ℚ)), Advances 10 startedCharging 2 log s ∧
      Smooth log ∧ s.time = 1 / 100000 := by
  let s₁ := after (advance 2 7 startedCharging)
  let s₂ := after (advance 2 3 s₁)
  have hrunning : startedCharging.running := by decide +kernel
  have hready : startedCharging.isReady := by decide +kernel
  have hrunning₁ : s₁.running := by decide +kernel
  have hready₁ : s₁.isReady := by decide +kernel
  obtain ⟨n₁, h₁⟩ := exists_of_succeeds (r := advance 2 7 startedCharging) (by decide +kernel)
  obtain ⟨n₂, h₂⟩ := exists_of_succeeds (r := advance 2 3 s₁) (by decide +kernel)
  have hsmooth₁ : Smooth (advanceLog 2 7 startedCharging) := by decide +kernel
  have hsmooth₂ : Smooth (advanceLog 2 3 s₁) := by decide +kernel
  have hadvances₁ : Advances 7 startedCharging n₁ (advanceLog 2 7 startedCharging) s₁ :=
    .of_linear hrunning hready (List.isEmpty_iff.1 (by decide +kernel)) h₁ hsmooth₁
  have hadvances₂ : Advances 3 s₁ n₂ (advanceLog 2 3 s₁) s₂ :=
    .of_linear hrunning₁ hready₁ (List.isEmpty_iff.1 (by decide +kernel)) h₂ hsmooth₂
  obtain ⟨-, hlength₁, -⟩ := hadvances₁.time_used hrunning hready hsmooth₁
  obtain ⟨-, hlength₂, -⟩ := hadvances₂.time_used hrunning₁ hready₁ hsmooth₂
  obtain rfl : n₁ = 1 := hlength₁.symm.trans (by decide +kernel)
  obtain rfl : n₂ = 1 := hlength₂.symm.trans (by decide +kernel)
  obtain ⟨-, -, hadd⟩ := advance_by_cadence reachable_startedCharging hrunning hready
  obtain ⟨log, h, hsmooth⟩ := hadd 7 3 1 1 _ _ s₁ s₂ (by decide +kernel) hadvances₁ hsmooth₁
    hadvances₂ hsmooth₂
  rw [show (7 + 3 : ℚ) = 10 by norm_num] at h
  exact ⟨s₂, log, h, hsmooth, by decide +kernel⟩

end Nodal.Simulator
