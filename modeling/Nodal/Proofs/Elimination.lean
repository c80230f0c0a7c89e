import Nodal.Proofs.Entries

/-! # Elimination finds a solution

Over exact arithmetic, what `Row.solve` returns solves every row it was given. One round hands on
the rows without their leading unknown; a solution of these, with the leading unknown found from the
pivot row, solves the rows before the round. -/

namespace Nodal

section Dot
variable {α : Type} [ExactScalar α]

/-- The product with a row that has a multiple of another one taken off. -/
theorem Scalar.dot_sub_mul (k : α) {xs ys : List α} (h : xs.length = ys.length) (zs : List α) :
    Scalar.dot (List.zipWith (fun a b => a + -k * b) xs ys) zs =
      Scalar.dot xs zs - k * Scalar.dot ys zs := by
  induction xs generalizing ys zs with
  | nil => cases ys with
    | nil => simp
    | cons => simp at h
  | cons x xs ih =>
    cases ys with
    | nil => simp at h
    | cons y ys =>
      cases zs with
      | nil => simp
      | cons z zs =>
        rw [List.zipWith_cons_cons, dot_cons, dot_cons, dot_cons, ih (by simpa using h)]
        ring

end Dot

namespace Row
variable {α : Type}

theorem length_zip (rows : List (List α)) (b : List α) : (zip rows b).length = rows.length := by
  induction rows generalizing b with
  | nil => rfl
  | cons r rows ih => cases b <;> simp [zip, ih]

theorem getElem?_zip (rows : List (List α)) (b : List α) (i : Nat) :
    (zip rows b)[i]? = rows[i]?.map fun r => ⟨r, b[i]?⟩ := by
  induction rows generalizing b i with
  | nil => rfl
  | cons r rows ih => cases b <;> cases i <;> simp [zip, ih]

theorem coeffs_zip (rows : List (List α)) (b : List α) : (zip rows b).map coeffs = rows := by
  induction rows generalizing b with
  | nil => rfl
  | cons r rows ih => cases b <;> rw [zip, List.map_cons, ih]

theorem exchange_perm {first p : Row α} {rest others : List (Row α)} {j : Nat}
    (h : exchange first rest j = .ok (p, others)) :
    (first :: rest)[j]? = some p ∧ (p :: others).Perm (first :: rest) := by
  cases j with
  | zero => cases h; exact ⟨rfl, .rfl⟩
  | succ j =>
    rw [exchange] at h
    split at h
    · cases h
    · rename_i r hr
      split at h
      · cases h
        refine ⟨by simpa using hr, ?_⟩
        obtain ⟨hj, rfl⟩ := List.getElem?_eq_some_iff.1 hr
        have hrest := (List.take_append_drop j rest).symm
        rw [List.drop_eq_getElem_cons hj] at hrest
        rw [List.set_eq_take_append_cons_drop, if_pos hj]
        conv_rhs => rw [hrest]
        refine (List.perm_middle.cons _).trans (.trans (.swap ..) (.cons _ ?_))
        exact List.perm_middle.symm
      · cases h

variable [Scalar α]

theorem dot_coeffs {α : Type} [ExactScalar α] {r : Row α} {n : Nat} (h : r.coeffs.length = n + 1)
    (y : α) (xs : List α) :
    Scalar.dot r.coeffs (y :: xs) = r.lead * y + Scalar.dot r.tail xs := by
  obtain ⟨c, cs, hr⟩ := List.exists_cons_of_length_eq_add_one h
  simp [lead, tail, hr]

/-- The size found is that of the row at the position found. -/
theorem largestLead_spec (first : Row α) (rest : List (Row α)) :
    ∃ r, (first :: rest)[(largestLead first rest).1]? = some r ∧
      (largestLead first rest).2 = Scalar.abs r.lead := by
  refine List.foldlRecOn (motive := fun best : Nat × α => ∃ r, (first :: rest)[best.1]? = some r ∧
    best.2 = Scalar.abs r.lead) _ _ ⟨first, rfl, rfl⟩ fun best hbest row hrow => ?_
  obtain ⟨r, i⟩ := row
  obtain ⟨hi, hr⟩ := List.mk_mem_zipIdx_iff_le_and_getElem?_sub.1 hrow
  simp only
  split
  · obtain ⟨j, rfl⟩ := Nat.exists_eq_add_of_le' hi
    exact ⟨r, by simpa using hr, rfl⟩
  · exact hbest

/-- What a round of a system that is solved has done. -/
theorem round_of_solve {n : Nat} {first : Row α} {rest : List (Row α)} {xs : List α}
    (h : solve (n + 1) (first :: rest) = .ok xs) :
    ∃ p others reduced ys t, pivotThreshold ≤ (largestLead first rest).2 ∧
      exchange first rest (largestLead first rest).1 = .ok (p, others) ∧
      others.mapM (reduce p) = .ok reduced ∧ solve n reduced = .ok ys ∧ p.rhs = some t ∧
      xs = (t - Scalar.dot p.tail ys) / p.lead :: ys := by
  rw [solve] at h
  simp only at h
  split at h
  case isFalse => cases h
  rename_i hpivot
  obtain ⟨⟨p, others⟩, hex, h⟩ := Outcome.bind_eq_ok.1 h
  obtain ⟨reduced, hred, h⟩ := Outcome.bind_eq_ok.1 h
  obtain ⟨ys, hys, h⟩ := Outcome.bind_eq_ok.1 h
  split at h
  case h_2 => cases h
  rename_i t ht
  cases h
  exact ⟨p, others, reduced, ys, t, hpivot, hex, hred, hys, ht, rfl⟩

variable {α : Type} [ExactScalar α]

/-- What a row says is so at `xs`. -/
def Holds (xs : List α) (r : Row α) : Prop := r.rhs = some (Scalar.dot r.coeffs xs)

theorem pivotThreshold_pos : 0 < (pivotThreshold : α) := by
  rw [pivotThreshold]
  norm_num

theorem length_reduce {p r r' : Row α} {n : Nat} (h : reduce p r = .ok r')
    (hp : p.coeffs.length = n + 1) (hr : r.coeffs.length = n + 1) : r'.coeffs.length = n := by
  rw [reduce] at h
  split at h
  · cases h; simp [tail, hr]
  · split at h
    · cases h; simp [tail, hr, hp]
    · cases h

/-- A reduced row that holds makes the row itself hold, once the leading unknown is what the pivot
row says. -/
theorem holds_of_reduce {p r r' : Row α} {n : Nat} {xs : List α} {t : α} (h : reduce p r = .ok r')
    (hp : p.coeffs.length = n + 1) (hr : r.coeffs.length = n + 1) (hlead : p.lead ≠ 0)
    (hrhs : p.rhs = some t) (hx : r'.Holds xs) :
    r.Holds ((t - Scalar.dot p.tail xs) / p.lead :: xs) := by
  have hlen : r.tail.length = p.tail.length := by simp [tail, hr, hp]
  rw [Holds, dot_coeffs hr]
  rw [reduce] at h
  split at h
  · rename_i hzero
    have hzero : r.lead = 0 := by simpa [hlead] using hzero
    cases h
    rw [hx, hzero, zero_mul, zero_add]
  · rw [hrhs] at h
    split at h
    · rename_i s t' hs ht
      cases h
      cases ht
      have hx := Option.some.inj hx
      rw [Scalar.dot_sub_mul _ hlen] at hx
      rw [hs]
      congr 1
      field_simp at hx ⊢
      linarith
    · cases h

theorem holds_pivot {p : Row α} {n : Nat} {xs : List α} {t : α} (hp : p.coeffs.length = n + 1)
    (hlead : p.lead ≠ 0) (hrhs : p.rhs = some t) :
    p.Holds ((t - Scalar.dot p.tail xs) / p.lead :: xs) := by
  rw [Holds, dot_coeffs hp, hrhs]
  congr 1
  field_simp
  ring

/-- The pivot of a round is not zero. -/
theorem lead_ne_zero {first p : Row α} {rest others : List (Row α)}
    (hpivot : pivotThreshold ≤ (largestLead first rest).2)
    (hex : exchange first rest (largestLead first rest).1 = .ok (p, others)) : p.lead ≠ 0 := by
  obtain ⟨hp, -⟩ := exchange_perm hex
  obtain ⟨r, hr, hsize⟩ := largestLead_spec first rest
  cases hp.symm.trans hr
  exact abs_pos.1 (pivotThreshold_pos.trans_le (hpivot.trans_eq hsize))

theorem length_reduced {n : Nat} {first p : Row α} {rest others reduced : List (Row α)} {j : Nat}
    (hn : (first :: rest).length = n + 1) (hrows : ∀ r ∈ first :: rest, r.coeffs.length = n + 1)
    (hex : exchange first rest j = .ok (p, others)) (hred : others.mapM (reduce p) = .ok reduced) :
    reduced.length = n ∧ ∀ r ∈ reduced, r.coeffs.length = n := by
  obtain ⟨-, hperm⟩ := exchange_perm hex
  have hall : ∀ r ∈ p :: others, r.coeffs.length = n + 1 := fun r hr =>
    hrows r (hperm.mem_iff.1 hr)
  obtain ⟨hpl, hothers⟩ := List.forall_mem_cons.1 hall
  refine ⟨?_, fun r' hr' => ?_⟩
  · rw [Outcome.length_of_mapM hred]
    exact Nat.succ_inj.1 (hperm.length_eq.trans hn)
  · obtain ⟨r, hr, hrr'⟩ := Outcome.exists_entry hred r' hr'
    exact length_reduce hrr' hpl (hothers r hr)

theorem solve_sound {n : Nat} {rows : List (Row α)} {xs : List α} (h : solve n rows = .ok xs)
    (hn : rows.length = n) (hrows : ∀ r ∈ rows, r.coeffs.length = n) :
    xs.length = n ∧ ∀ r ∈ rows, r.Holds xs := by
  induction n generalizing rows xs with
  | zero =>
    cases h
    exact ⟨rfl, fun r hr => by simp [List.length_eq_zero_iff.1 hn] at hr⟩
  | succ n ih =>
    obtain ⟨first, rest, rfl⟩ := List.exists_cons_of_length_eq_add_one hn
    obtain ⟨p, others, reduced, ys, t, hpivot, hex, hred, hys, ht, rfl⟩ := round_of_solve h
    have hlead := lead_ne_zero hpivot hex
    obtain ⟨-, hperm⟩ := exchange_perm hex
    have hall : ∀ r ∈ p :: others, r.coeffs.length = n + 1 := fun r hr =>
      hrows r (hperm.mem_iff.1 hr)
    obtain ⟨hpl, hothers⟩ := List.forall_mem_cons.1 hall
    obtain ⟨hlen, hcoeffs⟩ := length_reduced hn hrows hex hred
    obtain ⟨hyl, hyr⟩ := ih hys hlen hcoeffs
    refine ⟨by rw [List.length_cons, hyl], fun r hr => ?_⟩
    rcases List.mem_cons.1 (hperm.mem_iff.2 hr) with rfl | hr
    · exact holds_pivot hpl hlead ht
    · obtain ⟨r', hr', hrr'⟩ := Outcome.exists_result hred r hr
      exact holds_of_reduce hrr' hpl (hothers r hr) hlead ht (hyr r' hr')

end Row

variable {α : Type} [ExactScalar α]

/-- What a solved system returns makes every row equal to its right-hand side. -/
theorem Matrix.solve_sound {a : Matrix α} {b x : List α} (h : a.solve b = .ok x) :
    x.length = a.size ∧ ∀ i < a.size, b[i]? = some (a.rowSum x i) := by
  have hlen : a.rows.length = a.size := by simp [Matrix.rows]
  have hz : ∀ i < a.size, (Row.zip a.rows b)[i]? =
      some ⟨(a.cells.extract (i * a.size) (i * a.size + a.size)).toList, b[i]?⟩ := fun i hi => by
    rw [Row.getElem?_zip]
    simp [Matrix.rows, hi]
  have hrows : ∀ r ∈ Row.zip a.rows b, r.coeffs.length = a.size := fun r hr => by
    obtain ⟨i, hi, hir⟩ := List.getElem_of_mem hr
    have hi' : i < a.size := by rwa [Row.length_zip, hlen] at hi
    have := hz i hi'
    rw [List.getElem?_eq_getElem hi, hir] at this
    rw [Option.some.inj this]
    exact a.length_row hi'
  obtain ⟨hx, hholds⟩ := Row.solve_sound h (by rw [Row.length_zip, hlen]) hrows
  refine ⟨hx, fun i hi => ?_⟩
  refine (hholds _ (List.mem_of_getElem? (hz i hi))).trans ?_
  congr 1
  have hm := congrArg (·[i]?) (a.mulVec_eq x)
  simpa [Matrix.mulVec, Matrix.rows, hi] using hm

end Nodal
