import Nodal.Proofs.Outcomes

/-! # Computations side by side

A family has a member for each of several runs. Lists are related when they are equally long and
their entries are (`Each`); computations when all of them end with the same error, or all with
results that are related (`Alike`, `Together`), so none of them succeeds where another fails. -/

namespace Nodal
variable {ι β γ δ ε σ τ : Type}

/-- All members of the family are the same. -/
def Same (x : ι → β) : Prop := ∃ v, ∀ i, x i = v

theorem Same.const (v : β) : Same fun _ : ι => v := ⟨v, fun _ => rfl⟩

theorem Same.eq {x : ι → β} (h : Same x) (i j : ι) : x i = x j := by
  obtain ⟨v, hv⟩ := h
  rw [hv, hv]

theorem Same.map {x : ι → β} (h : Same x) (f : β → γ) : Same fun i => f (x i) := by
  obtain ⟨v, hv⟩ := h
  exact ⟨f v, fun i => congrArg f (hv i)⟩

/-- No member of the family is there, or all are and `P` holds of them. -/
inductive Possibly (P : (ι → β) → Prop) (x : ι → Option β) : Prop
  | none : (∀ i, x i = none) → Possibly P x
  | some (v : ι → β) : (∀ i, x i = some (v i)) → P v → Possibly P x

/-! ## Lists -/

/-- The lists of the family are equally long, and `P` holds of the entries at each position. -/
inductive Each (P : (ι → β) → Prop) : (ι → List β) → Prop
  | nil {l : ι → List β} : (∀ i, l i = []) → Each P l
  | cons {l : ι → List β} (x : ι → β) (xs : ι → List β) : (∀ i, l i = x i :: xs i) → P x →
      Each P xs → Each P l

namespace Each
variable {P : (ι → β) → Prop} {Q : (ι → γ) → Prop} {l l' : ι → List β}

theorem imp {P' : (ι → β) → Prop} (h : Each P l) (hP : ∀ x, P x → P' x) : Each P' l := by
  induction h with
  | nil h => exact .nil h
  | cons x xs h hx _ ih => exact .cons x xs h (hP x hx) ih

theorem map {f : ι → β → γ} (h : Each P l) (hf : ∀ x, P x → Q fun i => f i (x i)) :
    Each Q fun i => (l i).map (f i) := by
  induction h with
  | nil h => exact .nil fun i => by rw [h, List.map_nil]
  | cons x xs h hx _ ih => exact .cons _ _ (fun i => by rw [h, List.map_cons]) (hf x hx) ih

theorem append (h : Each P l) (h' : Each P l') : Each P fun i => l i ++ l' i := by
  induction h with
  | nil h =>
    obtain rfl : _ = fun _ => [] := funext h
    exact h'
  | cons x xs h hx _ ih => exact .cons x _ (fun i => by rw [h, List.cons_append]) hx ih

theorem reverse (h : Each P l) : Each P fun i => (l i).reverse := by
  induction h with
  | nil h => exact .nil fun i => by rw [h, List.reverse_nil]
  | cons x xs h hx _ ih =>
    have hlast : Each P fun i => [x i] :=
      .cons x (fun _ => []) (fun _ => rfl) hx (.nil fun _ => rfl)
    obtain rfl : _ = fun i => x i :: xs i := funext h
    simp only [List.reverse_cons]
    exact ih.append hlast

theorem replicate {x : ι → β} (n : Nat) (hx : P x) : Each P fun i => List.replicate n (x i) := by
  induction n with
  | zero => exact .nil fun _ => rfl
  | succ n ih => exact .cons x _ (fun _ => rfl) hx ih

theorem length (h : Each P l) : Same fun i => (l i).length := by
  induction h with
  | nil h => exact ⟨0, fun i => congrArg List.length (h i)⟩
  | cons x xs h _ _ ih =>
    obtain ⟨n, hn⟩ := ih
    obtain rfl : _ = fun i => x i :: xs i := funext h
    exact ⟨n + 1, fun i => congrArg Nat.succ (hn i)⟩

theorem getElem? (h : Each P l) (k : Nat) : Possibly P fun i => (l i)[k]? := by
  induction h generalizing k with
  | nil h => exact .none fun i => by rw [h, List.getElem?_nil]
  | cons x xs h hx _ ih =>
    obtain rfl : _ = fun i => x i :: xs i := funext h
    cases k with
    | zero => exact .some x (fun _ => rfl) hx
    | succ k =>
      simp only [List.getElem?_cons_succ]
      exact ih k

theorem modify {f : ι → β → β} (h : Each P l) (hf : ∀ x, P x → P fun i => f i (x i)) (k : Nat) :
    Each P fun i => (l i).modify k (f i) := by
  induction h generalizing k with
  | nil h => exact .nil fun i => by rw [h, List.modify_nil]
  | cons x xs h hx hxs ih =>
    obtain rfl : _ = fun i => x i :: xs i := funext h
    cases k with
    | zero => exact .cons _ xs (fun _ => rfl) (hf x hx) hxs
    | succ k => exact .cons x _ (fun _ => rfl) hx (ih k)

theorem set {v : ι → β} (h : Each P l) (hv : P v) (k : Nat) :
    Each P fun i => (l i).set k (v i) := by
  induction h generalizing k with
  | nil h => exact .nil fun i => by rw [h, List.set_nil]
  | cons x xs h hx hxs ih =>
    obtain rfl : _ = fun i => x i :: xs i := funext h
    cases k with
    | zero => exact .cons v xs (fun _ => rfl) hv hxs
    | succ k => exact .cons x _ (fun _ => rfl) hx (ih k)

/-- The same entries, each turned into a family. -/
theorem common (l : List β) {f : ι → β → γ} (h : ∀ x ∈ l, Q fun i => f i x) :
    Each Q fun i => l.map (f i) := by
  induction l with
  | nil => exact .nil fun _ => rfl
  | cons x l ih =>
    obtain ⟨hx, hl⟩ := List.forall_mem_cons.1 h
    exact .cons _ _ (fun _ => rfl) hx (ih hl)

theorem const (l : List β) (h : ∀ x ∈ l, P fun _ => x) : Each P fun _ : ι => l := by
  have := common (f := fun _ : ι => id) l h
  simpa only [List.map_id] using this

/-- What is the same at each position is the same for the lists. -/
theorem same_map {f : β → γ} (h : Each P l) (hf : ∀ x, P x → Same fun i => f (x i)) :
    Same fun i => (l i).map f := by
  induction h with
  | nil h => exact ⟨[], fun i => congrArg (List.map f) (h i)⟩
  | cons x xs h hx _ ih =>
    obtain ⟨v, hv⟩ := hf x hx
    obtain ⟨vs, hvs⟩ := ih
    obtain rfl : _ = fun i => x i :: xs i := funext h
    exact ⟨v :: vs, fun i => congrArg₂ List.cons (hv i) (hvs i)⟩

end Each

/-- The entries have the same key, and `P` holds of what stands under it. -/
def Keyed {κ : Type} (P : (ι → β) → Prop) (x : ι → κ × β) : Prop :=
  ∃ key v, (∀ i, x i = (key, v i)) ∧ P v

theorem Each.lookup {κ : Type} [BEq κ] {P : (ι → β) → Prop} {l : ι → List (κ × β)}
    (h : Each (Keyed P) l) (key : κ) : Possibly P fun i => (l i).lookup key := by
  induction h with
  | nil h => exact .none fun i => by rw [h, List.lookup_nil]
  | cons x xs h hx _ ih =>
    obtain ⟨k, v, hx, hv⟩ := hx
    simp only [h, hx, List.lookup_cons]
    split
    · exact .some v (fun _ => rfl) hv
    · exact ih

/-- The lists of the family go on together, as long as `P` holds of their entries, to the end or to
entries of which `Q` holds. -/
inductive Until (P Q : (ι → β) → Prop) : (ι → List β) → Prop
  | nil {l : ι → List β} : (∀ i, l i = []) → Until P Q l
  | cons {l : ι → List β} (x : ι → β) (xs : ι → List β) : (∀ i, l i = x i :: xs i) → P x →
      Until P Q xs → Until P Q l
  | stop {l : ι → List β} (x : ι → β) (xs : ι → List β) : (∀ i, l i = x i :: xs i) → Q x →
      Until P Q l

namespace Until
variable {P Q : (ι → β) → Prop} {l l' : ι → List β}

theorem each (h : Until P Q l) (hQ : ∀ x, ¬ Q x) : Each P l := by
  induction h with
  | nil h => exact .nil h
  | cons x xs h hx _ ih => exact .cons x xs h hx ih
  | stop x xs h hx => exact absurd hx (hQ x)

theorem append (h : Each P l) (h' : Until P Q l') : Until P Q fun i => l i ++ l' i := by
  induction h with
  | nil h =>
    obtain rfl : _ = fun _ => [] := funext h
    exact h'
  | cons x xs h hx _ ih => exact .cons x _ (fun i => by rw [h, List.cons_append]) hx ih

end Until

/-! ## Results -/

/-- All computations end with the same error, or all with results of which `Q` holds. -/
inductive Alike (Q : (ι → β) → Prop) (x : ι → Except ε β) : Prop
  | ok (b : ι → β) : (∀ i, x i = .ok (b i)) → Q b → Alike Q x
  | error (e : ε) : (∀ i, x i = .error e) → Alike Q x

namespace Alike
variable {P : (ι → β) → Prop} {Q : (ι → γ) → Prop} {x : ι → Except ε β}

theorem const (r : Except ε β) (hP : ∀ b, P fun _ => b) : Alike P fun _ : ι => r := by
  cases r with
  | ok b => exact .ok (fun _ => b) (fun _ => rfl) (hP b)
  | error e => exact .error e fun _ => rfl

theorem pure {b : ι → β} (hb : P b) : Alike P fun i => (Pure.pure (b i) : Except ε β) :=
  .ok b (fun _ => rfl) hb

theorem bind {f : ι → β → Except ε γ} (hx : Alike P x)
    (hf : ∀ b, P b → Alike Q fun i => f i (b i)) : Alike Q fun i => x i >>= f i := by
  cases hx with
  | ok b hx hb =>
    obtain rfl : x = fun i => .ok (b i) := funext hx
    exact hf b hb
  | error e hx =>
    obtain rfl : x = fun _ => .error e := funext hx
    exact .error e fun _ => rfl

/-- What comes first is the same. -/
theorem const_bind (r : Except ε β) {f : ι → β → Except ε γ}
    (hf : ∀ b, Alike Q fun i => f i b) : Alike Q fun i => r >>= f i := by
  cases r with
  | ok b => exact hf b
  | error e => exact .error e fun _ => rfl

theorem mapM {l : ι → List β} {f : ι → β → Except ε γ} (h : Each P l)
    (hf : ∀ x, P x → Alike Q fun i => f i (x i)) : Alike (Each Q) fun i => (l i).mapM (f i) := by
  induction h with
  | nil h =>
    obtain rfl : _ = fun _ => [] := funext h
    exact pure (.nil fun _ => rfl)
  | cons x xs h hx _ ih =>
    obtain rfl : _ = fun i => x i :: xs i := funext h
    simp only [List.mapM_cons]
    exact (hf x hx).bind fun y hy => ih.bind fun ys hys =>
      pure (.cons y ys (fun _ => rfl) hy hys)

theorem foldlM {l : ι → List β} {f : ι → γ → β → Except ε γ} {c : ι → γ} (h : Each P l) (hc : Q c)
    (hf : ∀ c x, Q c → P x → Alike Q fun i => f i (c i) (x i)) :
    Alike Q fun i => (l i).foldlM (f i) (c i) := by
  induction h generalizing c with
  | nil h =>
    obtain rfl : _ = fun _ => [] := funext h
    exact pure hc
  | cons x xs h hx _ ih =>
    obtain rfl : _ = fun i => x i :: xs i := funext h
    simp only [List.foldlM_cons]
    exact (hf c x hc hx).bind fun c hc => ih hc

end Alike

/-- All runs end with the same error, or all with results of which `Q` holds, and `R` holds of what
they leave behind. -/
inductive Together (R : (ι → σ) → Prop) (Q : (ι → β) → Prop) (r : ι → EStateM.Result ε σ β) : Prop
  | ok (b : ι → β) (s : ι → σ) : (∀ i, r i = .ok (b i) (s i)) → Q b → R s → Together R Q r
  | error (e : ε) (s : ι → σ) : (∀ i, r i = .error e (s i)) → R s → Together R Q r

theorem Together.after {R : (ι → σ) → Prop} {Q : (ι → β) → Prop} {r : ι → EStateM.Result ε σ β}
    (h : Together R Q r) : R fun i => after (r i) := by
  cases h with
  | ok b s hr _ hs =>
    obtain rfl : r = fun i => .ok (b i) (s i) := funext hr
    exact hs
  | error e s hr hs =>
    obtain rfl : r = fun i => .error e (s i) := funext hr
    exact hs

theorem Together.andReturn {R : (ι → σ) → Prop} {m : ι → EStateM ε σ β} {s : ι → σ}
    (h : Together R Same fun i => m i (s i)) (f : β → γ) :
    Together R Same fun i => (do return f (← m i) : EStateM ε σ γ) (s i) := by
  simp only [bind, EStateM.bind]
  cases h with
  | ok b s' hm hb hs' =>
    simp only [hm]
    exact .ok _ s' (fun _ => rfl) (hb.map f) hs'
  | error e s' hm hs' =>
    simp only [hm]
    exact .error e s' (fun _ => rfl) hs'

/-- From states of which `R` holds the computations end together. -/
def Parallel (R : (ι → σ) → Prop) (Q : (ι → β) → Prop) (m : ι → EStateM ε σ β) : Prop :=
  ∀ s, R s → Together R Q fun i => m i (s i)

namespace Parallel
variable {R : (ι → σ) → Prop} {P : (ι → β) → Prop} {Q : (ι → γ) → Prop} {m : ι → EStateM ε σ β}

theorem pure {b : ι → β} (hb : P b) : Parallel R P fun i => (Pure.pure (b i) : EStateM ε σ β) :=
  fun s hs => .ok b s (fun _ => rfl) hb hs

theorem throw (e : ε) : Parallel R P fun _ : ι => (MonadExcept.throw e : EStateM ε σ β) :=
  fun s hs => .error e s (fun _ => rfl) hs

theorem bind {f : ι → β → EStateM ε σ γ} (hm : Parallel R P m)
    (hf : ∀ b, P b → Parallel R Q fun i => f i (b i)) : Parallel R Q fun i => m i >>= f i := by
  intro s hs
  simp only [Bind.bind, EStateM.bind]
  cases hm s hs with
  | ok b s' hm hb hs' =>
    simp only [hm]
    exact hf b hb s' hs'
  | error e s' hm hs' =>
    simp only [hm]
    exact .error e s' (fun _ => rfl) hs'

theorem forM {l : ι → List β} {f : ι → β → EStateM ε σ PUnit} (h : Each P l)
    (hf : ∀ x, P x → Parallel R (fun _ => True) fun i => f i (x i)) :
    Parallel R (fun _ => True) fun i => (l i).forM (f i) := by
  induction h with
  | nil h =>
    obtain rfl : _ = fun _ => [] := funext h
    exact pure trivial
  | cons x xs h hx _ ih =>
    obtain rfl : _ = fun i => x i :: xs i := funext h
    simp only [List.forM_eq_forM, List.forM_cons] at ih ⊢
    exact (hf x hx).bind fun _ _ => ih

theorem foldlM {l : ι → List β} {f : ι → γ → β → EStateM ε σ γ} {c : ι → γ} (h : Each P l)
    (hc : Q c) (hf : ∀ c x, Q c → P x → Parallel R Q fun i => f i (c i) (x i)) :
    Parallel R Q fun i => (l i).foldlM (f i) (c i) := by
  induction h generalizing c with
  | nil h =>
    obtain rfl : _ = fun _ => [] := funext h
    exact pure hc
  | cons x xs h hx _ ih =>
    obtain rfl : _ = fun i => x i :: xs i := funext h
    simp only [List.foldlM_cons]
    exact (hf c x hc hx).bind fun c hc => ih hc

end Parallel

end Nodal
