import Nodal.Transient.Simulator
import Nodal.Proofs.Outcomes

/-! # The ticks of an advance

A successful tick is taken apart into its stamps, its solution and its states (`tick_inv`). An
advance attempts ticks while enough time waits, up to the first that fails: `Ticks` are the ones
before it, and `attempted` lists them all, with the simulators they start from. Both are tied to the
loop in one place (`takeTicks_inv`), and logs and moments are read off the list. -/

namespace Nodal.Simulator
variable {α : Type} [Scalar α]

/-- What a successful tick has done. -/
theorem tick_inv {budget : Nat} {s s' : Simulator α} (h : tick budget s = .ok () s') :
    ∃ e₀ companions e x state newton, s.equation = some e₀ ∧
      s.circuit.stampTick s.settings.timestep (s.time + s.settings.timestep) s.state e₀ =
        .ok companions e ∧
      e.solveWith s.circuit.nonlinear budget s.newton = .ok x newton ∧
      s.circuit.deriveState (0 :: x) companions = .ok state ∧
      s' = { s with
        solution := 0 :: x, state, time := s.time + s.settings.timestep, newton } := by
  unfold tick at h
  split at h
  · cases h
  rename_i e₀ he₀
  simp only at h
  split at h
  case h_2 => cases h
  rename_i solution state newton htick
  cases h
  unfold solveTick at htick
  split at htick
  · cases htick
  rename_i companions e hstamp
  split at htick
  · cases htick
  rename_i x newton' hsolve
  split at htick
  · cases htick
  rename_i state' hstate
  cases htick
  exact ⟨e₀, companions, e, x, _, _, he₀, hstamp, hsolve, hstate, rfl⟩

theorem circuit_of_tick {budget : Nat} {s s' : Simulator α} (h : tick budget s = .ok () s') :
    s'.circuit = s.circuit := by
  obtain ⟨e₀, companions, e, x, state, newton, -, -, -, -, rfl⟩ := tick_inv h
  rfl

/-- Real time is added to the time that waits. -/
def receive (milliseconds : α) (s : Simulator α) : Simulator α :=
  { s with remaining := s.remaining + milliseconds / 1000.0 * s.settings.rate }

/-- The time of one tick is used up. -/
def spend (s : Simulator α) : Simulator α :=
  { s with remaining := s.remaining - s.settings.timestep }

/-- How much time is enough for a tick. -/
def threshold (s : Simulator α) : α := s.settings.timestep * (1 - slack)

/-! ## Attempted ticks -/

/-- A tick that is attempted, or a call that is made, with the simulator before it. -/
inductive Moment (α : Type) where
  | tick (budget : Nat) (before : Simulator α)
  | call (budget : Nat) (call : Call α) (before : Simulator α)

/-- The ticks that `takeTicks` attempts, the one that fails included. -/
def attempted (threshold : α) (budget : Nat) : Nat → Simulator α → List (Moment α)
  | 0, _ => []
  | ticks + 1, s =>
    if threshold ≤ s.remaining then
      .tick budget s ::
        match tick budget s with
        | .ok () s₁ => attempted threshold budget ticks s₁.spend
        | .error _ _ => []
    else []

def Call.attempted (budget : Nat) (s : Simulator α) : Call α → List (Moment α)
  | .advance milliseconds =>
    if s.running && s.isReady then
      Simulator.attempted s.threshold budget budget (s.receive milliseconds)
    else []
  | _ => []

/-- The moments of a list of calls, each with its budget. A call comes after its ticks. -/
def moments : List (Nat × Call α) → Simulator α → List (Moment α)
  | [], _ => []
  | (budget, call) :: calls, s =>
    call.attempted budget s ++
      .call budget call s :: moments calls (after (perform budget call s))

/-! ## Logs -/

/-- What a log tells of a run. -/
inductive Event (α : Type) where
  /-- A tick has led from one simulator to the other, which has not yet used up the time. -/
  | ticked (before after : Simulator α)
  /-- A tick has failed. -/
  | failed (f : Failure α)
  /-- The circuit has been replaced. -/
  | loaded

/-- What has come of an attempted tick. -/
def Moment.event? : Moment α → Option (Event α)
  | .tick budget before =>
    match Simulator.tick budget before with
    | .ok () after => some (.ticked before after)
    | .error (.failed f) _ => some (.failed f)
    | .error _ _ => none
  | .call _ _ _ => none

/-- The log of `takeTicks`. -/
def ticksLog (threshold : α) (budget ticks : Nat) (s : Simulator α) : List (Event α) :=
  (attempted threshold budget ticks s).filterMap Moment.event?

def advanceLog (budget : Nat) (milliseconds : α) (s : Simulator α) : List (Event α) :=
  (Call.attempted budget s (.advance milliseconds)).filterMap Moment.event?

/-! ## The loop, one tick at a time -/

section Loop
variable {threshold : α} {budget ticks steps : Nat} {s s₁ : Simulator α} {f : Failure α}

theorem takeTicks_waiting (hlt : ¬ threshold ≤ s.remaining) (budget ticks steps : Nat) :
    takeTicks threshold budget ticks steps s = .ok (steps, false) s ∧
      attempted threshold budget ticks s = [] := by
  constructor
  · unfold takeTicks
    exact if_neg hlt
  · cases ticks with
    | zero => rfl
    | succ ticks => exact if_neg hlt

theorem takeTicks_zero (hle : threshold ≤ s.remaining) (budget steps : Nat) :
    takeTicks threshold budget 0 steps s = .error .exhausted s := by
  unfold takeTicks
  exact if_pos hle

theorem takeTicks_succ (hle : threshold ≤ s.remaining) (budget ticks steps : Nat) :
    takeTicks threshold budget (ticks + 1) steps s =
      match tick budget s with
      | .ok () s₁ => takeTicks threshold budget ticks (steps + 1) s₁.spend
      | .error (.failed f) s₁ => .ok (steps, true) (s₁.fail f)
      | .error halt s₁ => .error halt s₁ := by
  conv_lhs => unfold takeTicks
  rw [if_pos hle]
  rfl

theorem ticksLog_waiting (hlt : ¬ threshold ≤ s.remaining) (budget ticks : Nat) :
    ticksLog threshold budget ticks s = [] := by
  rw [ticksLog, (takeTicks_waiting hlt budget ticks 0).2, List.filterMap_nil]

theorem takeTicks_ticked (hle : threshold ≤ s.remaining) (ht : tick budget s = .ok () s₁) :
    takeTicks threshold budget (ticks + 1) steps s =
      takeTicks threshold budget ticks (steps + 1) s₁.spend := by
  rw [takeTicks_succ hle, ht]

theorem ticksLog_ticked (hle : threshold ≤ s.remaining) (ht : tick budget s = .ok () s₁) :
    ticksLog threshold budget (ticks + 1) s =
      .ticked s s₁ :: ticksLog threshold budget ticks s₁.spend := by
  rw [ticksLog, attempted, if_pos hle, List.filterMap_cons, Moment.event?, ht]
  rfl

theorem takeTicks_failed (hle : threshold ≤ s.remaining)
    (ht : tick budget s = .error (.failed f) s₁) :
    takeTicks threshold budget (ticks + 1) steps s = .ok (steps, true) (s₁.fail f) := by
  rw [takeTicks_succ hle, ht]

theorem ticksLog_failed (hle : threshold ≤ s.remaining)
    (ht : tick budget s = .error (.failed f) s₁) :
    ticksLog threshold budget (ticks + 1) s = [.failed f] := by
  rw [ticksLog, attempted, if_pos hle, List.filterMap_cons, Moment.event?, ht]
  rfl

end Loop

/-! ## Successful ticks -/

/-- Successful ticks one after the other, each while enough time waits. -/
inductive Ticks (threshold : α) (budget : Nat) : Simulator α → List (Event α) → Simulator α → Prop
  | done (s : Simulator α) : Ticks threshold budget s [] s
  | more {s s₁ s' : Simulator α} {log : List (Event α)} : threshold ≤ s.remaining →
      tick budget s = .ok () s₁ → Ticks threshold budget s₁.spend log s' →
      Ticks threshold budget s (.ticked s s₁ :: log) s'

section TakeTicks
variable {threshold : α} {budget ticks n : Nat} {failed : Bool} {s s₁ s₂ s' : Simulator α}
  {log : List (Event α)} {f : Failure α}

/-- The ticks of an advance come to an end because not enough time is left, or the last of them has
failed. -/
theorem takeTicks_inv {steps : Nat}
    (h : takeTicks threshold budget ticks steps s = .ok (n, failed) s') :
    ∃ (log : List (Event α)) (s₁ : Simulator α), Ticks threshold budget s log s₁ ∧
      n = steps + log.length ∧
      (failed = false ∧ ¬ threshold ≤ s₁.remaining ∧ s' = s₁ ∧
          ticksLog threshold budget ticks s = log ∨
        failed = true ∧ ∃ f s₂, threshold ≤ s₁.remaining ∧ tick budget s₁ = .error (.failed f) s₂ ∧
          s' = s₂.fail f ∧ ticksLog threshold budget ticks s = log ++ [.failed f]) := by
  induction ticks generalizing s steps with
  | zero =>
    by_cases hle : threshold ≤ s.remaining
    · rw [takeTicks_zero hle] at h
      cases h
    · rw [(takeTicks_waiting hle budget 0 steps).1] at h
      cases h
      exact ⟨[], _, .done _, rfl, .inl ⟨rfl, hle, rfl, rfl⟩⟩
  | succ ticks ih =>
    by_cases hle : threshold ≤ s.remaining
    case neg =>
      rw [(takeTicks_waiting hle budget _ steps).1] at h
      cases h
      exact ⟨[], _, .done _, rfl, .inl ⟨rfl, hle, rfl, ticksLog_waiting hle budget _⟩⟩
    rw [takeTicks_succ hle] at h
    split at h
    · rename_i s₁ ht
      obtain ⟨log, s₂, hticks, rfl, hend⟩ := ih h
      refine ⟨.ticked s s₁ :: log, s₂, .more hle ht hticks, ?_, ?_⟩
      · rw [List.length_cons]
        omega
      rw [ticksLog_ticked hle ht]
      rcases hend with ⟨hf, hle, rfl, hend⟩ | ⟨hf, f, s₃, hle, ht, hs, hend⟩
      · exact .inl ⟨hf, hle, rfl, congrArg _ hend⟩
      · exact .inr ⟨hf, f, s₃, hle, ht, hs, congrArg _ hend⟩
    · rename_i f s₁ ht
      cases h
      exact ⟨[], s, .done s, rfl, .inr ⟨rfl, f, s₁, hle, ht, rfl, ticksLog_failed hle ht⟩⟩
    · cases h

/-- What ticks can be taken are taken. -/
theorem takeTicks_of_ticks (steps : Nat) (h : Ticks threshold budget s log s')
    (hend : ¬ threshold ≤ s'.remaining) (hticks : log.length ≤ ticks) :
    takeTicks threshold budget ticks steps s = .ok (steps + log.length, false) s' ∧
      ticksLog threshold budget ticks s = log := by
  induction h generalizing ticks steps with
  | done s =>
    exact ⟨(takeTicks_waiting hend budget ticks steps).1, ticksLog_waiting hend budget ticks⟩
  | @more s s₁ s' log hle ht _ ih =>
    obtain ⟨ticks, rfl⟩ := Nat.exists_eq_add_of_le' (Nat.one_le_of_lt hticks)
    obtain ⟨htake, hlog⟩ := ih (steps + 1) hend (Nat.le_of_succ_le_succ hticks)
    rw [takeTicks_ticked hle ht, ticksLog_ticked hle ht, htake, hlog, List.length_cons,
      show steps + (log.length + 1) = steps + 1 + log.length by omega]
    exact ⟨rfl, rfl⟩

/-- The ticks end with the one that fails, whatever the time that still waits. -/
theorem takeTicks_of_failed (steps : Nat) (h : Ticks threshold budget s log s₁)
    (hle : threshold ≤ s₁.remaining) (ht : tick budget s₁ = .error (.failed f) s₂)
    (hticks : log.length < ticks) :
    takeTicks threshold budget ticks steps s = .ok (steps + log.length, true) (s₂.fail f) ∧
      ticksLog threshold budget ticks s = log ++ [.failed f] := by
  induction h generalizing ticks steps with
  | done s =>
    obtain ⟨ticks, rfl⟩ := Nat.exists_eq_add_of_le' hticks
    exact ⟨takeTicks_failed hle ht, ticksLog_failed hle ht⟩
  | @more s s₃ s₁ log hwait htick _ ih =>
    obtain ⟨ticks, rfl⟩ := Nat.exists_eq_add_of_le' (Nat.one_le_of_lt hticks)
    obtain ⟨htake, hlog⟩ := ih (steps + 1) hle ht (Nat.lt_of_succ_lt_succ hticks)
    rw [takeTicks_ticked hwait htick, ticksLog_ticked hwait htick, htake, hlog, List.length_cons,
      show steps + (log.length + 1) = steps + 1 + log.length by omega]
    exact ⟨rfl, rfl⟩

theorem takeTicks_ne_failed {steps : Nat} :
    takeTicks threshold budget ticks steps s ≠ .error (.failed f) s' := by
  intro h
  by_cases hle : threshold ≤ s.remaining
  case neg =>
    rw [(takeTicks_waiting hle budget ticks steps).1] at h
    cases h
  induction ticks generalizing s steps with
  | zero =>
    rw [takeTicks_zero hle] at h
    cases h
  | succ ticks ih =>
    rw [takeTicks_succ hle] at h
    split at h
    · rename_i s₁ _
      by_cases hwait : threshold ≤ s₁.spend.remaining
      · exact ih h hwait
      · rw [(takeTicks_waiting hwait budget ticks (steps + 1)).1] at h
        cases h
    · cases h
    · rename_i hne _
      cases h
      exact hne f rfl

end TakeTicks

/-! ## Advances -/

section Settled
variable {α : Type}

/-- After ticks that have not failed an error is forgotten. -/
def settled (n : Nat) (s : Simulator α) : Simulator α :=
  if 0 < n then { s with lastError := none } else s

variable (n : Nat) (s : Simulator α)

@[simp] theorem settled_settings : (settled n s).settings = s.settings := by
  unfold settled
  split <;> rfl

@[simp] theorem settled_running : (settled n s).running = s.running := by
  unfold settled
  split <;> rfl

@[simp] theorem settled_isReady : (settled n s).isReady = s.isReady := by
  unfold settled
  split <;> rfl

@[simp] theorem settled_time : (settled n s).time = s.time := by
  unfold settled
  split <;> rfl

@[simp] theorem settled_remaining : (settled n s).remaining = s.remaining := by
  unfold settled
  split <;> rfl

end Settled

section Running
variable {s s' s₁ s₂ : Simulator α} {budget n : Nat} {milliseconds : α} {log : List (Event α)}
  {f : Failure α}

theorem advance_eq (hrunning : s.running) (hready : s.isReady) :
    advance budget milliseconds s =
      match takeTicks s.threshold budget budget 0 (s.receive milliseconds) with
      | .ok (steps, failed) s' => .ok steps (if failed then s' else settled steps s')
      | .error halt s' => .error halt s' := by
  have hboth : (s.running && s.isReady) = true := Bool.and_eq_true_iff.2 ⟨hrunning, hready⟩
  unfold advance
  rw [if_pos hboth]
  show (match takeTicks s.threshold budget budget 0 (s.receive milliseconds) with
    | .ok (steps, failed) s' =>
      .ok steps (if !failed && 0 < steps then { s' with lastError := none } else s')
    | .error halt s' => .error halt s' : EStateM.Result (Halt α) (Simulator α) Nat) = _
  split
  · rename_i steps failed s' _
    cases failed <;> simp [settled]
  · rfl

theorem advanceLog_eq (hrunning : s.running) (hready : s.isReady) :
    advanceLog budget milliseconds s =
      ticksLog s.threshold budget budget (s.receive milliseconds) :=
  congrArg _ (if_pos (Bool.and_eq_true_iff.2 ⟨hrunning, hready⟩))

/-- A stopped simulator and one without an equation stay as they are. -/
theorem advance_idle (h : ¬ (s.running ∧ s.isReady)) (budget : Nat) (milliseconds : α) :
    advance budget milliseconds s = .ok 0 s ∧ advanceLog budget milliseconds s = [] := by
  have hnot : ¬ (s.running && s.isReady) = true := fun hboth => h (Bool.and_eq_true_iff.1 hboth)
  exact ⟨if_neg hnot, congrArg _ (if_neg hnot)⟩

/-- How an advance of a running simulator can end, with its log and the number of its ticks: no
tick fails and not enough time is left, or the tick after the successful ones fails. -/
inductive Ended (budget : Nat) (milliseconds : α) (s : Simulator α) :
    List (Event α) → Nat → Simulator α → Prop
  | waiting {log : List (Event α)} {s₁ : Simulator α} :
      Ticks s.threshold budget (s.receive milliseconds) log s₁ → ¬ s.threshold ≤ s₁.remaining →
      Ended budget milliseconds s log log.length (settled log.length s₁)
  | failed {log : List (Event α)} {s₁ s₂ : Simulator α} {f : Failure α} :
      Ticks s.threshold budget (s.receive milliseconds) log s₁ → s.threshold ≤ s₁.remaining →
      tick budget s₁ = .error (.failed f) s₂ →
      Ended budget milliseconds s (log ++ [.failed f]) log.length (s₂.fail f)

theorem ended_of_advance (hrunning : s.running) (hready : s.isReady)
    (h : advance budget milliseconds s = .ok n s') :
    Ended budget milliseconds s (advanceLog budget milliseconds s) n s' := by
  rw [advance_eq hrunning hready] at h
  rw [advanceLog_eq hrunning hready]
  split at h
  · rename_i steps failed t htake
    obtain ⟨log, s₁, hticks, rfl, ⟨rfl, hle, rfl, hlog⟩ | ⟨rfl, f, s₂, hle, ht, rfl, hlog⟩⟩ :=
      takeTicks_inv htake
    · cases h
      rw [hlog, Nat.zero_add]
      exact .waiting hticks hle
    · cases h
      rw [hlog, Nat.zero_add]
      exact .failed hticks hle ht
  · cases h

/-- An advance that comes back has found the simulator idle and left it alone, or it has ended. -/
theorem advance_cases (h : advance budget milliseconds s = .ok n s') :
    advanceLog budget milliseconds s = [] ∧ n = 0 ∧ s' = s ∨
      s.running ∧ s.isReady ∧
        Ended budget milliseconds s (advanceLog budget milliseconds s) n s' := by
  by_cases hboth : s.running ∧ s.isReady
  · exact .inr ⟨hboth.1, hboth.2, ended_of_advance hboth.1 hboth.2 h⟩
  · obtain ⟨hidle, hlog⟩ := advance_idle hboth budget milliseconds
    cases hidle.symm.trans h
    exact .inl ⟨hlog, rfl, rfl⟩

theorem advance_of_ticks (hrunning : s.running) (hready : s.isReady)
    (h : Ticks s.threshold budget (s.receive milliseconds) log s')
    (hend : ¬ s.threshold ≤ s'.remaining) (hlen : log.length ≤ budget) :
    advance budget milliseconds s = .ok log.length (settled log.length s') ∧
      advanceLog budget milliseconds s = log := by
  obtain ⟨htake, hlog⟩ := takeTicks_of_ticks 0 h hend hlen
  rw [advance_eq hrunning hready, advanceLog_eq hrunning hready, htake, Nat.zero_add]
  exact ⟨rfl, hlog⟩

theorem advance_of_failed (hrunning : s.running) (hready : s.isReady)
    (h : Ticks s.threshold budget (s.receive milliseconds) log s₁)
    (hle : s.threshold ≤ s₁.remaining) (ht : tick budget s₁ = .error (.failed f) s₂)
    (hlen : log.length < budget) :
    advance budget milliseconds s = .ok log.length (s₂.fail f) ∧
      advanceLog budget milliseconds s = log ++ [.failed f] := by
  obtain ⟨htake, hlog⟩ := takeTicks_of_failed 0 h hle ht hlen
  rw [advance_eq hrunning hready, advanceLog_eq hrunning hready, htake, Nat.zero_add]
  exact ⟨rfl, hlog⟩

end Running

end Nodal.Simulator
