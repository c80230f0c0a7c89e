import Nodal.Proofs.Elimination
import Nodal.Proofs.Failures

/-! # How elimination fails

Elimination gives up in a round in which no leading coefficient is large enough for a pivot. The
rounds before it have lost nothing: when the rows that it was given determine their unknowns, so do
the rows that are left (`Regular.left`). One of these then has a leading coefficient that is not
zero, only too small. -/

namespace Nodal

theorem Scalar.dot_replicate_zero {α : Type} [ExactScalar α] (xs : List α) (n : Nat) :
    Scalar.dot xs (List.replicate n 0) = 0 := by
  induction n generalizing xs with
  | zero => exact dot_nil_right xs
  | succ n ih =>
    cases xs with
    | nil => exact dot_nil _
    | cons x xs => rw [List.replicate_succ, dot_cons, mul_zero, zero_add, ih]

namespace Row

section Rounds
variable {α : Type} [Scalar α]

/-- Of a system with `n` unknowns, rounds of elimination leave these rows with `m` unknowns. -/
inductive Left : Nat → List (Row α) → Nat → List (Row α) → Prop
  | none (n : Nat) (rows : List (Row α)) : Left n rows n rows
  | round {n m : Nat} {first p : Row α} {rest others reduced left : List (Row α)} :
      pivotThreshold ≤ (largestLead first rest).2 →
      exchange first rest (largestLead first rest).1 = .ok (p, others) →
      others.mapM (reduce p) = .ok reduced → Left n reduced m left →
      Left (n + 1) (first :: rest) m left

/-- A system that is found singular has been left without a pivot by the rounds before. -/
theorem left_of_singular {n : Nat} {rows : List (Row α)}
    (h : solve n rows = .error (.failed .singularMatrix)) :
    ∃ m first rest, Left n rows (m + 1) (first :: rest) ∧
      ¬ pivotThreshold ≤ (largestLead first rest).2 := by
  induction n generalizing rows with
  | zero => cases h
  | succ n ih =>
    cases rows with
    | nil => cases h
    | cons first rest =>
      rw [solve] at h
      simp only at h
      split at h
      · rename_i hpivot
        obtain ⟨⟨p, others⟩, hex, h⟩ := (unfailing_exchange _ _ _).of_bind h
        obtain ⟨reduced, hred, h⟩ :=
          (Outcome.unfailing_mapM (unfailing_reduce p) others).of_bind h
        have hsingular : solve n reduced = .error (.failed .singularMatrix) := by
          cases hxs : solve n reduced with
          | error halt =>
            rw [hxs] at h
            cases h
            rfl
          | ok xs =>
            rw [hxs, Outcome.ok_bind] at h
            split at h <;> cases h
        obtain ⟨m, first', rest', hleft, hstall⟩ := ih hsingular
        exact ⟨m, first', rest', .round hpivot hex hred hleft, hstall⟩
      · rename_i hpivot
        exact ⟨n, first, rest, .none _ _, hpivot⟩

end Rounds

variable {α : Type} [ExactScalar α]

/-- One step of the search for the largest leading coefficient. -/
def larger (best : Nat × α) (row : Row α × Nat) : Nat × α :=
  if best.2 < |row.1.lead| then (row.2, |row.1.lead|) else best

theorem le_larger (best : Nat × α) (row : Row α × Nat) :
    best.2 ≤ (larger best row).2 ∧ |row.1.lead| ≤ (larger best row).2 := by
  unfold larger
  split
  · rename_i hlt
    exact ⟨hlt.le, le_rfl⟩
  · rename_i hle
    exact ⟨le_rfl, not_lt.1 hle⟩

theorem le_foldl_larger (rows : List (Row α × Nat)) (best : Nat × α) :
    best.2 ≤ (rows.foldl larger best).2 ∧ ∀ p ∈ rows, |p.1.lead| ≤ (rows.foldl larger best).2 := by
  induction rows generalizing best with
  | nil => exact ⟨le_rfl, nofun⟩
  | cons p rows ih =>
    obtain ⟨hbest, hp⟩ := le_larger best p
    obtain ⟨hle, hrows⟩ := ih (larger best p)
    rw [List.foldl_cons]
    exact ⟨hbest.trans hle, List.forall_mem_cons.2 ⟨hp.trans hle, hrows⟩⟩

/-- No row has a leading coefficient larger than the largest. -/
theorem abs_lead_le_largest (first : Row α) (rest : List (Row α)) :
    ∀ r ∈ first :: rest, |r.lead| ≤ (largestLead first rest).2 := by
  obtain ⟨hfirst, hrest⟩ := le_foldl_larger (rest.zipIdx 1) (0, |first.lead|)
  intro r hr
  rcases List.mem_cons.1 hr with rfl | hr
  · exact hfirst
  · obtain ⟨i, hi, rfl⟩ := List.getElem_of_mem hr
    have hmem : (rest[i], 1 + i) ∈ rest.zipIdx 1 := by
      rw [List.mk_mem_zipIdx_iff_le_and_getElem?_sub, Nat.add_sub_cancel_left,
        List.getElem?_eq_getElem hi]
      exact ⟨Nat.le_add_right .., rfl⟩
    exact hrest _ hmem

/-- A row is its reduced row with as much of the pivot row as was taken off. -/
theorem dot_reduce {p r r' : Row α} {n : Nat} (h : reduce p r = .ok r')
    (hp : p.coeffs.length = n + 1) (hr : r.coeffs.length = n + 1) (hlead : p.lead ≠ 0) (z : α)
    (ys : List α) :
    Scalar.dot r.coeffs (z :: ys) =
      Scalar.dot r'.coeffs ys + r.lead / p.lead * Scalar.dot p.coeffs (z :: ys) := by
  have hlen : r.tail.length = p.tail.length := by simp [tail, hr, hp]
  rw [dot_coeffs hr, dot_coeffs hp]
  rw [reduce] at h
  split at h
  · rename_i hzero
    have hzero : r.lead = 0 := by simpa [hlead] using hzero
    cases h
    rw [hzero]
    ring
  · split at h
    · cases h
      rw [Scalar.dot_sub_mul _ hlen]
      field_simp
      ring
    · cases h

/-- The rows, as many as unknowns, are zero together only where all unknowns are. -/
structure Regular (n : Nat) (rows : List (Row α)) : Prop where
  length_eq : rows.length = n
  length_coeffs : ∀ r ∈ rows, r.coeffs.length = n
  eq_zero : ∀ xs : List α, xs.length = n → (∀ r ∈ rows, Scalar.dot r.coeffs xs = 0) →
    ∀ v ∈ xs, v = 0

namespace Regular
variable {n m : Nat} {first p : Row α} {rest others reduced rows remaining : List (Row α)}

/-- One round keeps the system regular. -/
theorem round (h : Regular (n + 1) (first :: rest))
    (hpivot : pivotThreshold ≤ (largestLead first rest).2)
    (hex : exchange first rest (largestLead first rest).1 = .ok (p, others))
    (hred : others.mapM (reduce p) = .ok reduced) : Regular n reduced := by
  have hlead := lead_ne_zero hpivot hex
  obtain ⟨-, hperm⟩ := exchange_perm hex
  have hall : ∀ r ∈ p :: others, r.coeffs.length = n + 1 := fun r hr =>
    h.length_coeffs r (hperm.mem_iff.1 hr)
  obtain ⟨hpl, hothers⟩ := List.forall_mem_cons.1 hall
  obtain ⟨hlen, hcoeffs⟩ := length_reduced h.length_eq h.length_coeffs hex hred
  refine ⟨hlen, hcoeffs, fun ys hys hzero => ?_⟩
  -- the leading unknown that makes the pivot row zero makes all the others zero
  let z := -(Scalar.dot p.tail ys / p.lead)
  have hpz : Scalar.dot p.coeffs (z :: ys) = 0 := by
    rw [dot_coeffs hpl]
    simp only [z]
    field_simp
    ring
  have hrows : ∀ r ∈ first :: rest, Scalar.dot r.coeffs (z :: ys) = 0 := by
    intro r hr
    rcases List.mem_cons.1 (hperm.mem_iff.2 hr) with rfl | hr
    · exact hpz
    · obtain ⟨r', hr', hrr'⟩ := Outcome.exists_result hred r hr
      rw [dot_reduce hrr' hpl (hothers r hr) hlead, hpz, hzero r' hr', mul_zero, add_zero]
  have hzs := h.eq_zero (z :: ys) (by rw [List.length_cons, hys]) hrows
  exact fun v hv => hzs v (List.mem_cons_of_mem _ hv)

theorem left (h : Regular n rows) (hleft : Left n rows m remaining) : Regular m remaining := by
  induction hleft with
  | none n rows => exact h
  | round hpivot hex hred _ ih => exact ih (h.round hpivot hex hred)

/-- Where all unknowns but the first are zero, a regular system is not zero. -/
theorem exists_lead (h : Regular (m + 1) rows) : ∃ r ∈ rows, r.lead ≠ 0 := by
  by_contra hnone
  have hzero : ∀ r ∈ rows, Scalar.dot r.coeffs (1 :: List.replicate m 0) = 0 := by
    intro r hr
    have hlead : r.lead = 0 := by
      by_contra hne
      exact hnone ⟨r, hr, hne⟩
    rw [dot_coeffs (h.length_coeffs r hr), hlead, zero_mul, zero_add, Scalar.dot_replicate_zero]
  have hone := h.eq_zero (1 :: List.replicate m 0) (by simp) hzero 1 List.mem_cons_self
  exact one_ne_zero hone

end Regular

/-- No leading coefficient is large enough for a pivot, but there is one that is not zero. -/
def Stalled (rows : List (Row α)) : Prop :=
  (∀ r ∈ rows, |r.lead| < pivotThreshold) ∧ ∃ r ∈ rows, r.lead ≠ 0

/-- A regular system is never found singular for a pivot that is zero. -/
theorem Regular.stalled {n : Nat} {rows : List (Row α)} (h : Regular n rows)
    (hsingular : solve n rows = .error (.failed .singularMatrix)) :
    ∃ m left, Left n rows m left ∧ Stalled left := by
  obtain ⟨m, first, rest, hleft, hstall⟩ := left_of_singular hsingular
  refine ⟨m + 1, first :: rest, hleft, fun r hr => ?_, (h.left hleft).exists_lead⟩
  exact (abs_lead_le_largest first rest r hr).trans_lt (not_le.1 hstall)

end Row

end Nodal
