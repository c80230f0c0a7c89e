import Mathlib.Data.List.Forall2
import Nodal.Failure

/-! # Computations that end with a result

Taking a successful computation apart: its steps have been successful one after the other. -/

namespace Nodal.Outcome
variable {ε α β γ : Type}

@[simp] theorem pure_eq_ok (b : β) : (pure b : Except ε β) = .ok b := rfl

@[simp] theorem ok_bind (b : β) (f : β → Except ε γ) : (Except.ok b >>= f) = f b := rfl

@[simp] theorem error_bind (e : ε) (f : β → Except ε γ) : (Except.error e >>= f) = .error e := rfl

theorem bind_eq_ok {x : Except ε β} {f : β → Except ε γ} {c : γ} :
    (x >>= f) = .ok c ↔ ∃ b, x = .ok b ∧ f b = .ok c := by
  cases x <;> simp

theorem mapM_eq_ok {f : β → Except ε γ} {xs : List β} {ys : List γ} :
    xs.mapM f = .ok ys ↔ List.Forall₂ (fun x y => f x = .ok y) xs ys := by
  induction xs generalizing ys with
  | nil => cases ys <;> simp
  | cons x xs ih =>
    rw [List.mapM_cons, bind_eq_ok]
    constructor
    · rintro ⟨y, hy, h⟩
      obtain ⟨zs, hzs, h⟩ := bind_eq_ok.1 h
      cases h
      exact .cons hy (ih.1 hzs)
    · rintro (_ | ⟨hy, hys⟩)
      exact ⟨_, hy, bind_eq_ok.2 ⟨_, ih.2 hys, rfl⟩⟩

theorem length_of_mapM {f : β → Outcome α γ} {xs : List β} {ys : List γ} (h : xs.mapM f = .ok ys) :
    ys.length = xs.length :=
  (mapM_eq_ok.1 h).length_eq.symm

theorem exists_result {f : β → Outcome α γ} {xs : List β} {ys : List γ} (h : xs.mapM f = .ok ys) :
    ∀ x ∈ xs, ∃ y ∈ ys, f x = .ok y := by
  have h := mapM_eq_ok.1 h
  induction h with
  | nil => simp
  | @cons x y xs ys hxy _ ih =>
    refine List.forall_mem_cons.2 ⟨⟨y, List.mem_cons_self, hxy⟩, fun x hx => ?_⟩
    obtain ⟨y, hy, hxy⟩ := ih (mapM_eq_ok.2 ‹_›) x hx
    exact ⟨y, List.mem_cons_of_mem _ hy, hxy⟩

theorem exists_entry {f : β → Outcome α γ} {xs : List β} {ys : List γ} (h : xs.mapM f = .ok ys) :
    ∀ y ∈ ys, ∃ x ∈ xs, f x = .ok y := by
  have h := mapM_eq_ok.1 h
  induction h with
  | nil => simp
  | @cons x y xs ys hxy _ ih =>
    refine List.forall_mem_cons.2 ⟨⟨x, List.mem_cons_self, hxy⟩, fun y hy => ?_⟩
    obtain ⟨x, hx, hxy⟩ := ih (mapM_eq_ok.2 ‹_›) y hy
    exact ⟨x, List.mem_cons_of_mem _ hx, hxy⟩

theorem mapM_of_forall {f : β → Except ε γ} {g : β → γ} {xs : List β}
    (h : ∀ x ∈ xs, f x = .ok (g x)) : xs.mapM f = .ok (xs.map g) := by
  rw [mapM_eq_ok, List.forall₂_map_right_iff, List.forall₂_same]
  exact h

theorem exists_mapM {f : β → Outcome α γ} {xs : List β} (h : ∀ x ∈ xs, ∃ y, f x = .ok y) :
    ∃ ys, xs.mapM f = .ok ys := by
  induction xs with
  | nil => exact ⟨[], rfl⟩
  | cons x xs ih =>
    obtain ⟨⟨y, hy⟩, hxs⟩ := List.forall_mem_cons.1 h
    obtain ⟨ys, hys⟩ := ih hxs
    exact ⟨y :: ys, by rw [List.mapM_cons, hy, ok_bind, hys, ok_bind]; rfl⟩

/-- When a run over a list has ended with a result, so has every step of it. -/
theorem step_of_foldlM {f : γ → β → Outcome α γ} {xs : List β} {c c' : γ}
    (h : xs.foldlM f c = .ok c') : ∀ x ∈ xs, ∃ c₁ c₂, f c₁ x = .ok c₂ := by
  induction xs generalizing c with
  | nil => simp
  | cons x xs ih =>
    rw [List.foldlM_cons] at h
    obtain ⟨c₁, h₁, h⟩ := bind_eq_ok.1 h
    exact List.forall_mem_cons.2 ⟨⟨c, c₁, h₁⟩, ih h⟩

/-- What each step of a run over a list adds to is true of the list in the end. -/
theorem foldlM_induction {P : List β → γ → Prop} {f : γ → β → Except ε γ} {xs : List β}
    {c c' : γ} (hc : P [] c) (hstep : ∀ xs c x c', P xs c → f c x = .ok c' → P (xs ++ [x]) c')
    (h : xs.foldlM f c = .ok c') : P xs c' := by
  suffices hs : ∀ (xs done : List β) (c : γ), P done c → xs.foldlM f c = .ok c' →
      P (done ++ xs) c' from hs xs [] c hc h
  intro xs
  induction xs with
  | nil =>
    intro done c hd h
    cases h
    rwa [List.append_nil]
  | cons x xs ih =>
    intro done c hd h
    rw [List.foldlM_cons] at h
    cases hx : f c x with
    | error e =>
      rw [hx] at h
      cases h
    | ok c₁ =>
      rw [hx] at h
      rw [List.append_cons]
      exact ih _ _ (hstep _ _ _ _ hd hx) h

/-- A run over positions goes through the states that its steps lead through. -/
theorem foldlM_range {f : γ → Nat → Outcome α γ} {k : Nat} (s : Nat → γ)
    (hstep : ∀ i < k, f (s i) i = .ok (s (i + 1))) : (List.range k).foldlM f (s 0) = .ok (s k) := by
  induction k with
  | zero => rfl
  | succ k ih =>
    rw [List.range_succ, List.foldlM_append, ih fun i hi => hstep i (Nat.lt_succ_of_lt hi), ok_bind,
      List.foldlM_cons, hstep k k.lt_succ_self]
    rfl

/-! ## Computations that have a result -/

/-- The computation has a result, and `P` holds of it. -/
def Gives (x : Outcome α β) (P : β → Prop) : Prop := ∃ b, x = .ok b ∧ P b

namespace Gives
variable {P : β → Prop} {Q : γ → Prop} {x : Outcome α β}

theorem pure {b : β} (hb : P b) : Gives (Pure.pure b : Outcome α β) P := ⟨b, rfl, hb⟩

theorem bind {f : β → Outcome α γ} (hx : Gives x P) (hf : ∀ b, P b → Gives (f b) Q) :
    Gives (x >>= f) Q := by
  obtain ⟨b, rfl, hb⟩ := hx
  exact hf b hb

/-- What every step of a run over a list keeps. -/
theorem foldlM {ι : Type} {f : β → ι → Outcome α β} {xs : List ι} {b : β} (hb : P b)
    (hf : ∀ x ∈ xs, ∀ b, P b → Gives (f b x) P) : Gives (xs.foldlM f b) P := by
  induction xs generalizing b with
  | nil => exact .pure hb
  | cons x xs ih =>
    obtain ⟨hx, hxs⟩ := List.forall_mem_cons.1 hf
    rw [List.foldlM_cons]
    exact (hx b hb).bind fun b hb => ih hb hxs

end Gives

/-! ## Computations without an error -/

/-- The computation does not end with an error that a caller handles. -/
def Unfailing (x : Outcome α β) : Prop := ∀ f, x ≠ .error (.failed f)

theorem unfailing_ok (b : β) : Unfailing (.ok b : Outcome α β) := nofun

theorem unfailing_misuse (m : Misuse) : Unfailing (misuse m : Outcome α β) := nofun

theorem Unfailing.bind {x : Outcome α β} {f : β → Outcome α γ} (hx : Unfailing x)
    (hf : ∀ b, Unfailing (f b)) : Unfailing (x >>= f) := by
  cases x with
  | ok b => exact hf b
  | error h =>
    intro g hg
    cases hg
    exact hx g rfl

theorem unfailing_mapM {f : β → Outcome α γ} (hf : ∀ b, Unfailing (f b)) (xs : List β) :
    Unfailing (xs.mapM f) := by
  induction xs with
  | nil => exact unfailing_ok []
  | cons x xs ih =>
    rw [List.mapM_cons]
    exact (hf x).bind fun _ => ih.bind fun _ => unfailing_ok _

theorem unfailing_foldlM {f : γ → β → Outcome α γ} (hf : ∀ c b, Unfailing (f c b)) (xs : List β)
    (c : γ) : Unfailing (xs.foldlM f c) := by
  induction xs generalizing c with
  | nil => exact unfailing_ok c
  | cons x xs ih =>
    rw [List.foldlM_cons]
    exact (hf c x).bind fun c => ih c

end Nodal.Outcome

namespace Nodal
variable {ε σ β γ : Type}

theorem eq_ok_of_isOk {r : Except ε Unit} (h : r.isOk) : r = .ok () := by
  cases r with
  | ok u => rfl
  | error e => cases h

theorem eq_ok_of_toOption {r : Except ε β} {b : β} (h : r.toOption = some b) : r = .ok b := by
  cases r with
  | ok b' => exact congrArg _ (Option.some.inj h)
  | error e => cases h

theorem exists_ok_of_any {r : Except ε β} {p : β → Bool} (h : r.toOption.any p) :
    ∃ b, r = .ok b ∧ p b := by
  cases r with
  | ok b => exact ⟨b, rfl, h⟩
  | error e => cases h

section Bind
variable {m : EStateM ε σ β} {f : β → EStateM ε σ γ} {s s' : σ}

theorem run_bind_eq_ok {c : γ} :
    (m >>= f) s = .ok c s' ↔ ∃ b s₁, m s = .ok b s₁ ∧ f b s₁ = .ok c s' := by
  simp only [Bind.bind, EStateM.bind]
  cases m s with
  | ok b s₁ =>
    constructor
    · intro h
      exact ⟨b, s₁, rfl, h⟩
    · rintro ⟨b', s₁', heq, h⟩
      cases heq
      exact h
  | error e s₁ =>
    refine iff_of_false nofun ?_
    rintro ⟨b, s₁', heq, -⟩
    cases heq

theorem run_bind_eq_error {e : ε} :
    (m >>= f) s = .error e s' ↔
      m s = .error e s' ∨ ∃ b s₁, m s = .ok b s₁ ∧ f b s₁ = .error e s' := by
  simp only [Bind.bind, EStateM.bind]
  cases m s with
  | ok b s₁ =>
    constructor
    · intro h
      exact .inr ⟨b, s₁, rfl, h⟩
    · rintro (heq | ⟨b', s₁', heq, h⟩)
      · cases heq
      · cases heq
        exact h
  | error e' s₁ =>
    constructor
    · intro h
      cases h
      exact .inl rfl
    · rintro (heq | ⟨b, s₁', heq, -⟩)
      · cases heq
        rfl
      · cases heq

end Bind

/-- The state that a run leaves behind, whatever it ends with. -/
def after : EStateM.Result ε σ β → σ
  | .ok _ s => s
  | .error _ s => s

/-- Whether a run has ended with a result. -/
def succeeds : EStateM.Result ε σ β → Bool
  | .ok _ _ => true
  | .error _ _ => false

theorem exists_of_succeeds {r : EStateM.Result ε σ β} (h : succeeds r) :
    ∃ b, r = .ok b (after r) := by
  cases r with
  | ok b s => exact ⟨b, rfl⟩
  | error e s => cases h

/-- Whether a run has ended with an error that a caller handles. -/
def fails {α : Type} : EStateM.Result (Halt α) σ β → Bool
  | .error (.failed _) _ => true
  | _ => false

theorem exists_of_fails {α : Type} {r : EStateM.Result (Halt α) σ β} (h : fails r) :
    ∃ f, r = .error (.failed f) (after r) := by
  cases r with
  | ok b s => cases h
  | error halt s =>
    cases halt with
    | failed f => exact ⟨f, rfl⟩
    | misuse m => cases h
    | exhausted => cases h

end Nodal
