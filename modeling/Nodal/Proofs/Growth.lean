import Nodal.Proofs.Solvability

/-! # How far elimination can grow

Elimination goes from column to column: a pivot row is picked, the other rows are reduced by it, and
rows with one unknown less are left. In the end the unknowns are found from the pivot rows, the last
one first. The pivot is the largest coefficient of its column, so no more than the pivot row itself
is taken off any row, and a column doubles the entries at most (`Eliminated.Tame`). Here the columns
are carried out with any division that is right about divisors of the size of a pivot: what it makes
of smaller ones is never seen (`solve_eq_columns`). -/

namespace Nodal

/-- A system some columns of which have been eliminated. -/
structure Eliminated (α : Type) where
  /-- The pivot rows of these columns, in their order. -/
  pivots : List (Row α)
  /-- The other rows, without the unknowns of these columns. -/
  left : List (Row α)

namespace Row

/-! ## Columns -/

section Columns
variable {α : Type} [Scalar α]

/-- The pivot row of the next column, and the other rows. -/
def pick : List (Row α) → Outcome α (Row α × List (Row α))
  | [] => .misuse .outOfRange
  | first :: rest =>
    let (position, size) := largestLead first rest
    if pivotThreshold ≤ size then exchange first rest position else .fail .singularMatrix

variable (divide : α → α → Outcome α α)

/-- Takes the leading unknown out of `r` as `reduce` does, with a division of its own. -/
def reduceBy (p r : Row α) : Outcome α (Row α) := do
  let factor ← divide r.lead p.lead
  if factor == 0 then return ⟨r.tail, r.rhs⟩
  else
    match r.rhs, p.rhs with
    | some s, some t =>
      return ⟨List.zipWith (fun a b => a + -factor * b) r.tail p.tail, some (s - factor * t)⟩
    | _, _ => .misuse .outOfRange

/-- Eliminates the first `k` columns. -/
def eliminate : Nat → List (Row α) → Outcome α (Eliminated α)
  | 0, rows => return ⟨[], rows⟩
  | k + 1, rows => do
    let (p, others) ← pick rows
    let s ← eliminate k (← others.mapM (reduceBy divide p))
    return ⟨p :: s.pivots, s.left⟩

/-- Puts the leading unknown of a pivot row before the others. -/
def findLead (p : Row α) (xs : List α) : Outcome α (List α) := do
  match p.rhs with
  | some t => return (← divide (t - Scalar.dot p.tail xs) p.lead) :: xs
  | none => .misuse .outOfRange

/-- Puts the unknowns of pivot rows before those of the rows that are left. -/
def backSubstitute : List (Row α) → List α → Outcome α (List α)
  | [], xs => return xs
  | p :: pivots, xs => do findLead divide p (← backSubstitute pivots xs)

/-- The division is right about divisors of the size of a pivot. Of smaller ones it may make any
number, or halt. -/
def DividesByPivots : Prop :=
  ∀ v d : α, pivotThreshold ≤ Scalar.abs d → divide v d = .ok (v / d)

variable {divide} {rows others : List (Row α)} {p : Row α}

theorem pick_inv (h : pick rows = .ok (p, others)) : ∃ first rest, rows = first :: rest ∧
    pivotThreshold ≤ (largestLead first rest).2 ∧
    exchange first rest (largestLead first rest).1 = .ok (p, others) := by
  cases rows with
  | nil => cases h
  | cons first rest =>
    simp only [pick] at h
    split at h
    · rename_i hpivot
      exact ⟨first, rest, rfl, hpivot, h⟩
    · cases h

/-- The row that is exchanged for the first one has the largest leading coefficient. -/
theorem largestLead_of_exchange {first : Row α} {rest : List (Row α)}
    (h : exchange first rest (largestLead first rest).1 = .ok (p, others)) :
    (largestLead first rest).2 = Scalar.abs p.lead := by
  obtain ⟨hp, -⟩ := exchange_perm h
  obtain ⟨r, hr, hsize⟩ := largestLead_spec first rest
  cases hp.symm.trans hr
  exact hsize

theorem threshold_le_of_pick (h : pick rows = .ok (p, others)) :
    pivotThreshold ≤ Scalar.abs p.lead := by
  obtain ⟨first, rest, rfl, hpivot, hex⟩ := pick_inv h
  rwa [largestLead_of_exchange hex] at hpivot

theorem perm_of_pick (h : pick rows = .ok (p, others)) : (p :: others).Perm rows := by
  obtain ⟨first, rest, rfl, -, hex⟩ := pick_inv h
  exact (exchange_perm hex).2

theorem reduceBy_eq (hdivide : DividesByPivots divide) (h : pivotThreshold ≤ Scalar.abs p.lead) :
    reduceBy divide p = reduce p := by
  funext r
  rw [reduceBy, hdivide _ _ h, reduce]
  rfl

theorem findLead_eq (hdivide : DividesByPivots divide) (h : pivotThreshold ≤ Scalar.abs p.lead) :
    findLead divide p = findLead (fun v d => .ok (v / d)) p := by
  funext xs
  simp only [findLead, hdivide _ _ h]

/-- A round of `solve` is a column with its back-substitution. -/
theorem solve_succ (n : Nat) (first : Row α) (rest : List (Row α)) :
    solve (n + 1) (first :: rest) = (do
      let picked ← pick (first :: rest)
      let reduced ← picked.2.mapM (reduce picked.1)
      findLead (fun v d => .ok (v / d)) picked.1 (← solve n reduced)) := by
  rw [solve, pick]
  simp only
  split
  · rfl
  · rfl

/-- The solution is found by eliminating some of the columns, solving what is left, and going back
through the pivot rows. -/
theorem solve_eq_columns (hdivide : DividesByPivots divide) {n k : Nat} (hn : rows.length = n)
    (hk : k ≤ n) : solve n rows = (do
      let s ← eliminate divide k rows
      backSubstitute divide s.pivots (← solve (n - k) s.left)) := by
  induction k generalizing n rows with
  | zero => exact (bind_pure _).symm
  | succ k ih =>
    cases n with
    | zero => cases hk
    | succ n =>
      obtain ⟨first, rest, rfl⟩ := List.exists_cons_of_length_eq_add_one hn
      rw [solve_succ, eliminate]
      cases hpick : pick (first :: rest) with
      | error halt => rfl
      | ok picked =>
        obtain ⟨p, others⟩ := picked
        have hthreshold := threshold_le_of_pick hpick
        simp only [Outcome.ok_bind, reduceBy_eq hdivide hthreshold]
        cases hreduced : others.mapM (reduce p) with
        | error halt => rfl
        | ok reduced =>
          have hlength : reduced.length = n := by
            rw [Outcome.length_of_mapM hreduced]
            exact Nat.succ_inj.1 ((perm_of_pick hpick).length_eq.trans hn)
          simp only [Outcome.ok_bind, ih hlength (Nat.le_of_succ_le_succ hk), bind_assoc, pure_bind,
            backSubstitute, Nat.add_sub_add_right, findLead_eq hdivide hthreshold]

end Columns

/-! ## Growth -/

section Growth
variable {α : Type} [ExactScalar α] {rows others : List (Row α)} {p r r' : Row α} {bound : α}

/-- The pivot is the largest coefficient of its column. -/
theorem abs_lead_le_of_pick (h : pick rows = .ok (p, others)) :
    ∀ r ∈ rows, |r.lead| ≤ |p.lead| := by
  obtain ⟨first, rest, rfl, -, hex⟩ := pick_inv h
  intro r hr
  exact (abs_lead_le_largest first rest r hr).trans_eq (largestLead_of_exchange hex)

/-- Of the pivot row no more than the row itself is taken off another one. -/
theorem abs_factor_le_one (h : pick rows = .ok (p, others)) :
    ∀ r ∈ others, |r.lead / p.lead| ≤ 1 := by
  intro r hr
  have hmem : r ∈ rows := (perm_of_pick h).mem_iff.1 (List.mem_cons_of_mem _ hr)
  rw [abs_div]
  exact div_le_one_of_le₀ (abs_lead_le_of_pick h r hmem) (abs_nonneg _)

/-- No coefficient of the row is larger than the bound. -/
def Within (bound : α) (r : Row α) : Prop := ∀ v ∈ r.coeffs, |v| ≤ bound

theorem Within.tail (h : r.Within bound) : ∀ v ∈ r.tail, |v| ≤ bound :=
  fun v hv => h v (List.mem_of_mem_tail hv)

/-- A multiple of one number taken off another one. -/
theorem abs_add_neg_mul_le {a b factor : α} (ha : |a| ≤ bound) (hb : |b| ≤ bound)
    (hfactor : |factor| ≤ 1) : |a + -factor * b| ≤ 2 * bound := by
  calc |a + -factor * b| ≤ |a| + |-factor * b| := abs_add_le _ _
    _ = |a| + |factor| * |b| := by rw [abs_mul, abs_neg]
    _ ≤ bound + 1 * bound := add_le_add ha (mul_le_mul hfactor hb (abs_nonneg _) zero_le_one)
    _ = 2 * bound := by ring

theorem Within.reduce (hp : p.Within bound) (hr : r.Within bound) (hbound : 0 ≤ bound)
    (hfactor : |r.lead / p.lead| ≤ 1) (h : Row.reduce p r = .ok r') : r'.Within (2 * bound) := by
  rw [Row.reduce] at h
  split at h
  · cases h
    intro v hv
    have := hr.tail v hv
    linarith
  · split at h
    · cases h
      intro v hv
      obtain ⟨i, hi, rfl⟩ := List.getElem_of_mem hv
      simp only [List.getElem_zipWith]
      exact abs_add_neg_mul_le (hr.tail _ (List.getElem_mem _)) (hp.tail _ (List.getElem_mem _))
        hfactor
    · cases h

end Growth

end Row

namespace Eliminated

/-- The whole matrix. A pivot row begins with zeros in the columns before its own, and the rows that
are left have zeros in all columns that are done. -/
def matrix {α : Type} [Scalar α] (s : Eliminated α) : List (List α) :=
  s.pivots.foldr (fun p rows => p.coeffs :: rows.map (0 :: ·)) (s.left.map Row.coeffs)

variable {α : Type} [ExactScalar α]

/-- What is so after `k` columns of a system of `n` rows with no coefficient above the bound. -/
structure Tame (n k : Nat) (bound : α) (s : Eliminated α) : Prop where
  length_pivots : s.pivots.length = k
  length_matrix : s.matrix.length = n
  length_row : ∀ row ∈ s.matrix, row.length = n
  /-- A column doubles the entries at most. -/
  entry_le : ∀ row ∈ s.matrix, ∀ v ∈ row, |v| ≤ 2 ^ k * bound
  /-- The divisors of these columns, and of the way back. -/
  pivot_ge : ∀ p ∈ s.pivots, Row.pivotThreshold ≤ |p.lead|
  /-- The divisor of the next column. -/
  next_ge : ∀ p others, Row.pick s.left = .ok (p, others) → Row.pivotThreshold ≤ |p.lead|
  /-- The multipliers of the next column. -/
  factor_le : ∀ p others, Row.pick s.left = .ok (p, others) → ∀ r ∈ others, |r.lead / p.lead| ≤ 1

theorem Tame.start {n : Nat} {bound : α} {rows : List (Row α)} (hn : rows.length = n)
    (hrows : ∀ r ∈ rows, r.coeffs.length = n) (hbound : ∀ r ∈ rows, r.Within bound) :
    Tame n 0 bound ⟨[], rows⟩ where
  length_pivots := rfl
  length_matrix := (List.length_map ..).trans hn
  length_row := List.forall_mem_map.2 hrows
  entry_le := by
    rw [pow_zero, one_mul]
    exact List.forall_mem_map.2 hbound
  pivot_ge := nofun
  next_ge _ _ h := Row.threshold_le_of_pick h
  factor_le _ _ h := Row.abs_factor_le_one h

/-- A column is put before those that come after it. -/
theorem Tame.column {n k : Nat} {bound : α} {s : Eliminated α} {p : Row α}
    (h : Tame n k (2 * bound) s) (hbound : 0 ≤ bound) (hlength : p.coeffs.length = n + 1)
    (hp : p.Within bound) (hpivot : Row.pivotThreshold ≤ |p.lead|) :
    Tame (n + 1) (k + 1) bound ⟨p :: s.pivots, s.left⟩ where
  length_pivots := congrArg (· + 1) h.length_pivots
  length_matrix := congrArg (· + 1) ((List.length_map ..).trans h.length_matrix)
  length_row := List.forall_mem_cons.2
    ⟨hlength, List.forall_mem_map.2 fun row hrow => congrArg (· + 1) (h.length_row row hrow)⟩
  entry_le := by
    have hpow : 2 ^ k * (2 * bound) = 2 ^ (k + 1) * bound := by ring
    have hle : bound ≤ 2 ^ (k + 1) * bound :=
      le_mul_of_one_le_left hbound (one_le_pow₀ one_le_two)
    refine List.forall_mem_cons.2 ⟨fun v hv => (hp v hv).trans hle, ?_⟩
    refine List.forall_mem_map.2 fun row hrow => List.forall_mem_cons.2 ⟨?_, fun v hv => ?_⟩
    · rw [abs_zero]
      exact hbound.trans hle
    · exact (h.entry_le row hrow v hv).trans_eq hpow
  pivot_ge := List.forall_mem_cons.2 ⟨hpivot, h.pivot_ge⟩
  next_ge := h.next_ge
  factor_le := h.factor_le

end Eliminated

namespace Row
variable {α : Type} [ExactScalar α]

/-- A run of columns. -/
theorem eliminate_tame {divide : α → α → Outcome α α} (hdivide : DividesByPivots divide) {n k : Nat}
    {bound : α} {rows : List (Row α)} {s : Eliminated α} (hk : k ≤ n) (hbound : 0 ≤ bound)
    (hn : rows.length = n) (hrows : ∀ r ∈ rows, r.coeffs.length = n)
    (hwithin : ∀ r ∈ rows, r.Within bound) (h : eliminate divide k rows = .ok s) :
    s.Tame n k bound := by
  induction k generalizing n bound rows s with
  | zero =>
    cases h
    exact .start hn hrows hwithin
  | succ k ih =>
    cases n with
    | zero => cases hk
    | succ n =>
      rw [eliminate] at h
      obtain ⟨⟨p, others⟩, hpick, h⟩ := Outcome.bind_eq_ok.1 h
      obtain ⟨reduced, hreduced, h⟩ := Outcome.bind_eq_ok.1 h
      obtain ⟨s', hs', h⟩ := Outcome.bind_eq_ok.1 h
      cases h
      have hpivot := threshold_le_of_pick hpick
      rw [reduceBy_eq hdivide hpivot] at hreduced
      obtain ⟨first, rest, rfl, -, hex⟩ := pick_inv hpick
      obtain ⟨hlength, hcoeffs⟩ := length_reduced hn hrows hex hreduced
      have hmem : ∀ r ∈ p :: others, r ∈ first :: rest := fun r hr =>
        (perm_of_pick hpick).mem_iff.1 hr
      have hp := hmem p List.mem_cons_self
      refine .column (ih (Nat.le_of_succ_le_succ hk) (by positivity) hlength hcoeffs ?_ hs') hbound
        (hrows p hp) (hwithin p hp) hpivot
      intro r' hr'
      obtain ⟨r, hr, hrr'⟩ := Outcome.exists_entry hreduced r' hr'
      exact (hwithin p hp).reduce (hwithin r (hmem r (List.mem_cons_of_mem _ hr))) hbound
        (abs_factor_le_one hpick r hr) hrr'

end Row

namespace Matrix
variable {α : Type} [ExactScalar α]

/-- The largest magnitude of an entry; zero when there is none. -/
def largest (a : Matrix α) : α := a.cells.toList.foldr (fun v most => max |v| most) 0

theorem largest_nonneg (a : Matrix α) : 0 ≤ a.largest := by
  rw [largest]
  induction a.cells.toList with
  | nil => exact le_rfl
  | cons v vs ih => exact ih.trans (le_max_right ..)

theorem abs_le_largest (a : Matrix α) : ∀ v ∈ a.cells, |v| ≤ a.largest := by
  simp only [← Array.mem_toList_iff, largest]
  induction a.cells.toList with
  | nil => exact nofun
  | cons v vs ih =>
    refine List.forall_mem_cons.2 ⟨le_max_left .., fun w hw => ?_⟩
    exact (ih w hw).trans (le_max_right ..)

theorem within_largest (a : Matrix α) (b : List α) :
    ∀ r ∈ Row.zip a.rows b, r.Within a.largest := by
  intro r hr v hv
  have hrow : r.coeffs ∈ a.rows := Row.coeffs_zip a.rows b ▸ List.mem_map.2 ⟨r, hr, rfl⟩
  obtain ⟨i, -, hi⟩ := List.mem_map.1 hrow
  rw [← hi, Array.mem_toList_iff, Array.mem_extract_iff_getElem] at hv
  obtain ⟨j, hj, rfl⟩ := hv
  exact a.abs_le_largest _ (Array.getElem_mem _)

/-- Solving a system eliminates its columns one after the other and goes back through the pivot
rows. On the way no multiplier is above one, a column doubles the entries at most, and nothing is
divided by less than the pivot threshold: whatever division makes of smaller divisors, be it to
halt, the run is the same. -/
theorem elimination_tame (a : Matrix α) (b : List α) :
    (0 : α) < Row.pivotThreshold ∧
    ∀ divide : α → α → Outcome α α, Row.DividesByPivots divide → ∀ k ≤ a.size,
      (a.solve b = (do
        let s ← Row.eliminate divide k (Row.zip a.rows b)
        Row.backSubstitute divide s.pivots (← Row.solve (a.size - k) s.left))) ∧
      ∀ s, Row.eliminate divide k (Row.zip a.rows b) = .ok s → s.Tame a.size k a.largest := by
  refine ⟨Row.pivotThreshold_pos, fun divide hdivide k hk => ⟨?_, fun s hs => ?_⟩⟩
  · exact Row.solve_eq_columns hdivide (a.length_zip_rows b) hk
  · exact Row.eliminate_tame hdivide hk a.largest_nonneg (a.length_zip_rows b) (a.length_coeffs b)
      (a.within_largest b) hs

/-- Every column before the last doubles the largest entry of the last one. -/
def doubling : Matrix ℚ := ⟨3, #[1, 0, 1, -1, 1, 1, -1, -1, 1], rfl⟩

/-- Halts at a divisor below the pivot threshold. -/
def divideOrHalt (v d : ℚ) : Outcome ℚ ℚ :=
  if Row.pivotThreshold ≤ |d| then .ok (v / d) else .misuse .outOfRange

theorem elimination_tame_doubling :
    Row.DividesByPivots divideOrHalt ∧ doubling.largest = 1 ∧
    ∃ s, Row.eliminate divideOrHalt 2 (Row.zip doubling.rows [2, 1, 0]) = .ok s ∧
      s.matrix = [[1, 0, 1], [0, 1, 2], [0, 0, 2 ^ 2]] ∧ s.Tame 3 2 1 ∧
      doubling.solve [2, 1, 0] =
        Row.solve 1 s.left >>= Row.backSubstitute divideOrHalt s.pivots := by
  have hdivide : Row.DividesByPivots divideOrHalt := fun v d hd => if_pos hd
  have hlargest : doubling.largest = 1 := by decide +kernel
  obtain ⟨s, hs, hmatrix⟩ := exists_ok_of_any
    (r := Row.eliminate divideOrHalt 2 (Row.zip doubling.rows [2, 1, 0]))
    (p := fun s => s.matrix == [[1, 0, 1], [0, 1, 2], [0, 0, 2 ^ 2]]) (by decide +kernel)
  obtain ⟨-, htame⟩ := elimination_tame doubling [2, 1, 0]
  obtain ⟨hsolve, hall⟩ := htame divideOrHalt hdivide 2 (by decide)
  rw [hs] at hsolve
  exact ⟨hdivide, hlargest, s, hs, beq_iff_eq.1 hmatrix, hlargest ▸ hall s hs, hsolve⟩

end Matrix

end Nodal
