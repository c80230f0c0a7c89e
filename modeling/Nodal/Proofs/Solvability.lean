import Mathlib.LinearAlgebra.Matrix.NonsingularInverse
import Nodal.Proofs.Pivots
import Nodal.Proofs.Settling

/-! # What elimination decides

A round with a pivot is undone by its pivot row: the rows before it determine their unknowns as
soon as the reduced ones do (`Regular.of_round`). So a system that is solved has a matrix with an
inverse, and no other solution. A system is found singular when the rounds before have left rows
none of which has a leading coefficient of the size of a pivot, and in no other case. -/

namespace Nodal

namespace Row

section Rounds
variable {α : Type} [Scalar α]

/-- A system is singular when what the rounds have left of it is. -/
theorem singular_of_left {n m : Nat} {rows left : List (Row α)} (h : Left n rows m left)
    (hleft : solve m left = .error (.failed .singularMatrix)) :
    solve n rows = .error (.failed .singularMatrix) := by
  induction h with
  | none n rows => exact hleft
  | round hpivot hex hred _ ih =>
    rw [solve]
    simp only [if_pos hpivot, hex, Outcome.ok_bind, hred, ih hleft, Outcome.error_bind]

end Rounds

variable {α : Type} [ExactScalar α]

/-- The rows before a round determine their unknowns when the rows after it do. -/
theorem Regular.of_round {n : Nat} {first p : Row α} {rest others reduced : List (Row α)}
    (hn : (first :: rest).length = n + 1) (hrows : ∀ r ∈ first :: rest, r.coeffs.length = n + 1)
    (hpivot : pivotThreshold ≤ (largestLead first rest).2)
    (hex : exchange first rest (largestLead first rest).1 = .ok (p, others))
    (hred : others.mapM (reduce p) = .ok reduced) (h : Regular n reduced) :
    Regular (n + 1) (first :: rest) := by
  have hlead := lead_ne_zero hpivot hex
  obtain ⟨-, hperm⟩ := exchange_perm hex
  have hall : ∀ r ∈ p :: others, r.coeffs.length = n + 1 := fun r hr =>
    hrows r (hperm.mem_iff.1 hr)
  obtain ⟨hpl, hothers⟩ := List.forall_mem_cons.1 hall
  refine ⟨hn, hrows, fun xs hxs hzero => ?_⟩
  obtain ⟨z, ys, rfl⟩ := List.exists_cons_of_length_eq_add_one hxs
  have hpz : Scalar.dot p.coeffs (z :: ys) = 0 :=
    hzero p (hperm.mem_iff.1 List.mem_cons_self)
  have hys : ∀ v ∈ ys, v = 0 := by
    refine h.eq_zero ys (Nat.succ_inj.1 hxs) fun r' hr' => ?_
    obtain ⟨r, hr, hrr'⟩ := Outcome.exists_entry hred r' hr'
    have hr0 := hzero r (hperm.mem_iff.1 (List.mem_cons_of_mem _ hr))
    rwa [dot_reduce hrr' hpl (hothers r hr) hlead, hpz, mul_zero, add_zero] at hr0
  -- with the other unknowns zero, the pivot row leaves the leading one no choice
  have hz : p.lead * z = 0 := by
    have hreplicate : ys = List.replicate ys.length 0 := List.eq_replicate_of_mem hys
    rwa [dot_coeffs hpl, hreplicate, Scalar.dot_replicate_zero, add_zero] at hpz
  exact List.forall_mem_cons.2 ⟨(mul_eq_zero.1 hz).resolve_left hlead, hys⟩

/-- Rows that are solved determine their unknowns. -/
theorem regular_of_solve {n : Nat} {rows : List (Row α)} {xs : List α} (h : solve n rows = .ok xs)
    (hn : rows.length = n) (hrows : ∀ r ∈ rows, r.coeffs.length = n) : Regular n rows := by
  induction n generalizing rows xs with
  | zero => exact ⟨hn, hrows, fun xs hxs _ => by simp [List.length_eq_zero_iff.1 hxs]⟩
  | succ n ih =>
    obtain ⟨first, rest, rfl⟩ := List.exists_cons_of_length_eq_add_one hn
    obtain ⟨p, others, reduced, ys, t, hpivot, hex, hred, hys, -, -⟩ := round_of_solve h
    obtain ⟨hlen, hcoeffs⟩ := length_reduced hn hrows hex hred
    exact .of_round hn hrows hpivot hex hred (ih hys hlen hcoeffs)

/-- Without a leading coefficient of the size of a pivot a round finds the system singular. -/
theorem singular_of_small {m : Nat} {rows : List (Row α)} (hlen : rows.length = m + 1)
    (hsmall : ∀ r ∈ rows, |r.lead| < pivotThreshold) :
    solve (m + 1) rows = .error (.failed .singularMatrix) := by
  obtain ⟨first, rest, rfl⟩ := List.exists_cons_of_length_eq_add_one hlen
  obtain ⟨r, hr, hsize⟩ := largestLead_spec first rest
  have hlt : (largestLead first rest).2 < pivotThreshold := by
    rw [hsize]
    exact hsmall r (List.mem_of_getElem? hr)
  rw [solve]
  exact if_neg (not_le.2 hlt)

/-- Rounds take away one row and one unknown each. -/
theorem Left.lengths {n m : Nat} {rows left : List (Row α)} (h : Left n rows m left)
    (hn : rows.length = n) (hrows : ∀ r ∈ rows, r.coeffs.length = n) :
    m ≤ n ∧ left.length = m := by
  induction h with
  | none n rows => exact ⟨le_rfl, hn⟩
  | round _ hex hred _ ih =>
    obtain ⟨hlen, hcoeffs⟩ := length_reduced hn hrows hex hred
    obtain ⟨hle, hleft⟩ := ih hlen hcoeffs
    exact ⟨Nat.le_succ_of_le hle, hleft⟩

/-- Elimination gives up in column `k` when no row that is left has a pivot there. -/
def GivesUp (n : Nat) (rows : List (Row α)) (k : Nat) : Prop :=
  ∃ left, Left n rows (n - k) left ∧ left.length = n - k ∧ ∀ r ∈ left, |r.lead| < pivotThreshold

theorem singular_iff {n : Nat} {rows : List (Row α)} (hn : rows.length = n)
    (hrows : ∀ r ∈ rows, r.coeffs.length = n) :
    solve n rows = .error (.failed .singularMatrix) ↔ ∃ k < n, GivesUp n rows k := by
  constructor
  · intro h
    obtain ⟨m, first, rest, hleft, hstall⟩ := left_of_singular h
    obtain ⟨hle, hlen⟩ := hleft.lengths hn hrows
    have hcount : n - (n - (m + 1)) = m + 1 := Nat.sub_sub_self hle
    refine ⟨n - (m + 1), Nat.sub_lt (Nat.zero_lt_of_lt hle) m.succ_pos, first :: rest, ?_⟩
    rw [hcount]
    exact ⟨hleft, hlen, fun r hr =>
      (abs_lead_le_largest first rest r hr).trans_lt (not_le.1 hstall)⟩
  · rintro ⟨k, hk, left, hleft, hlen, hsmall⟩
    obtain ⟨m, hm⟩ := Nat.exists_eq_add_of_lt (Nat.sub_pos_of_lt hk)
    rw [Nat.zero_add] at hm
    rw [hm] at hleft hlen
    exact singular_of_left hleft (singular_of_small hlen hsmall)

end Row

namespace Matrix
variable {α : Type} [ExactScalar α]

omit [ExactScalar α] in
theorem length_zip_rows (a : Matrix α) (b : List α) : (Row.zip a.rows b).length = a.size := by
  rw [Row.length_zip, rows, List.length_map, List.length_range]

omit [ExactScalar α] in
theorem length_coeffs (a : Matrix α) (b : List α) :
    ∀ r ∈ Row.zip a.rows b, r.coeffs.length = a.size := by
  intro r hr
  have hrow : r.coeffs ∈ a.rows := Row.coeffs_zip a.rows b ▸ List.mem_map.2 ⟨r, hr, rfl⟩
  obtain ⟨i, hi, hr⟩ := List.mem_map.1 hrow
  rw [← hr]
  exact a.length_row (List.mem_range.1 hi)

/-- The rows of a matrix determine their unknowns when only zero is taken to zero. -/
theorem regular_iff (a : Matrix α) (b : List α) : Row.Regular a.size (Row.zip a.rows b) ↔
    ∀ xs : List α, xs.length = a.size → a.mulVec xs = List.replicate a.size 0 →
      ∀ v ∈ xs, v = 0 := by
  have hmul : ∀ xs : List α, (∀ r ∈ Row.zip a.rows b, Scalar.dot r.coeffs xs = 0) ↔
      a.mulVec xs = List.replicate a.size 0 := by
    intro xs
    have hlen : (a.mulVec xs).length = a.size := by simp [mulVec_eq]
    have hrows : a.mulVec xs = (Row.zip a.rows b).map fun r => Scalar.dot r.coeffs xs := by
      conv_lhs => rw [mulVec, ← Row.coeffs_zip a.rows b, List.map_map]
      rfl
    rw [List.eq_replicate_iff, and_iff_right hlen, hrows]
    simp only [List.forall_mem_map]
  refine ⟨fun h xs hxs hzero => h.eq_zero xs hxs ((hmul xs).2 hzero), fun h => ?_⟩
  exact ⟨a.length_zip_rows b, a.length_coeffs b, fun xs hxs hzero =>
    h xs hxs ((hmul xs).1 hzero)⟩

/-- The matrix as a function of two positions. -/
def coefficients (a : Matrix α) := Matrix.of fun (i j : Fin a.size) => a.entry i j

theorem coefficients_mulVec (a : Matrix α) (xs : List α) (i : Fin a.size) :
    a.coefficients.mulVec (fun j => xs.getD j 0) i = a.rowSum xs i := by
  rw [rowSum, Finset.sum_range fun j => a.entry i j * xs.getD j 0]
  rfl

/-- A matrix has an inverse when its rows determine their unknowns. -/
theorem isUnit_iff (a : Matrix α) (b : List α) :
    IsUnit a.coefficients ↔ Row.Regular a.size (Row.zip a.rows b) := by
  rw [regular_iff, ← Matrix.mulVec_injective_iff_isUnit]
  constructor
  · intro h xs hxs hzero
    have hmul : a.coefficients.mulVec (fun j => xs.getD j 0) = a.coefficients.mulVec 0 := by
      funext i
      rw [coefficients_mulVec, Matrix.mulVec_zero, ← a.getD_mulVec xs i.isLt, hzero]
      simp [List.getD_eq_getElem?_getD]
    have hall := h hmul
    intro v hv
    obtain ⟨j, hj, rfl⟩ := List.getElem_of_mem hv
    have := congrFun hall ⟨j, hxs ▸ hj⟩
    simpa [List.getD_eq_getElem?_getD, hj] using this
  · intro h
    refine (injective_iff_map_eq_zero a.coefficients.mulVecLin).2 fun f hf => ?_
    have hget : ∀ j : Fin a.size, (List.ofFn f).getD j 0 = f j := fun j => by
      simp [List.getD_eq_getElem?_getD]
    have hmul : a.mulVec (List.ofFn f) = List.replicate a.size 0 := by
      rw [mulVec_eq, List.eq_replicate_iff]
      refine ⟨by simp, fun v hv => ?_⟩
      obtain ⟨i, hi, rfl⟩ := List.mem_map.1 hv
      rw [← a.coefficients_mulVec _ ⟨i, List.mem_range.1 hi⟩]
      simp only [hget]
      exact congrFun hf ⟨i, List.mem_range.1 hi⟩
    funext j
    exact h _ (by simp) hmul _ (List.mem_ofFn.2 ⟨j, rfl⟩)

/-- A matrix with an inverse takes different columns to different columns. -/
theorem eq_of_mulVec {a : Matrix α} (ha : IsUnit a.coefficients) {x y : List α}
    (hx : x.length = a.size) (hy : y.length = a.size) (heq : a.mulVec x = a.mulVec y) : x = y := by
  have hmul : a.coefficients.mulVec (fun j => x.getD j 0) =
      a.coefficients.mulVec fun j => y.getD j 0 := by
    funext i
    rw [coefficients_mulVec, coefficients_mulVec, ← a.getD_mulVec x i.isLt, heq,
      a.getD_mulVec y i.isLt]
  have hget := Matrix.mulVec_injective_iff_isUnit.2 ha hmul
  refine List.ext_getElem (hx.trans hy.symm) fun j hjx hjy => ?_
  have hj := congrFun hget ⟨j, hx ▸ hjx⟩
  simpa [List.getD_eq_getElem?_getD, hjx, hjy] using hj

theorem mulVec_of_solve {a : Matrix α} {b x : List α} (h : a.solve b = .ok x)
    (hb : b.length = a.size) : a.mulVec x = b := by
  obtain ⟨-, hrows⟩ := solve_sound h
  rw [mulVec_eq]
  refine List.ext_getElem (by simp [hb]) fun i hi hib => ?_
  have hget := hrows i (hb ▸ hib)
  rw [List.getElem?_eq_getElem hib] at hget
  simpa using (Option.some.inj hget).symm

theorem isUnit_of_solve {a : Matrix α} {b x : List α} (h : a.solve b = .ok x) :
    IsUnit a.coefficients :=
  (a.isUnit_iff b).2 (Row.regular_of_solve h (a.length_zip_rows b) (a.length_coeffs b))

/-- A system that is solved has an inverse and this one solution. It is found singular if and only
if elimination comes to a column in which no row left has a pivot, which always happens when there
is no inverse, and there is no third outcome. -/
theorem solve_decides (a : Matrix α) {b : List α} (hb : b.length = a.size) :
    (∀ x, a.solve b = .ok x → x.length = a.size ∧ a.mulVec x = b ∧ IsUnit a.coefficients ∧
      ∀ y : List α, y.length = a.size → a.mulVec y = b → y = x) ∧
    (a.solve b = .error (.failed .singularMatrix) ↔
      ∃ k < a.size, Row.GivesUp a.size (Row.zip a.rows b) k) ∧
    (¬ IsUnit a.coefficients → a.solve b = .error (.failed .singularMatrix)) ∧
    ((∃ x, a.solve b = .ok x) ∨ a.solve b = .error (.failed .singularMatrix)) := by
  have hsettles := solve_settles hb
  refine ⟨fun x hx => ?_, ?_, fun hunit => ?_, hsettles⟩
  · obtain ⟨hlen, -⟩ := solve_sound hx
    have hmul := mulVec_of_solve hx hb
    have hunit := isUnit_of_solve hx
    refine ⟨hlen, hmul, hunit, fun y hy hyb => ?_⟩
    exact eq_of_mulVec hunit hy hlen (hyb.trans hmul.symm)
  · exact Row.singular_iff (a.length_zip_rows b) (a.length_coeffs b)
  · obtain ⟨x, hx⟩ | hsingular := hsettles
    · exact absurd (isUnit_of_solve hx) hunit
    · exact hsingular

/-- Its first pivot is not in its first row. -/
def swapping : Matrix Rat := ⟨3, #[0, 1, 0, 1, 0, 1, 0, 1, 1], rfl⟩

/-- The second row is twice the first one. -/
def dependent : Matrix Rat := ⟨2, #[1, 2, 2, 4], rfl⟩

theorem solve_decides_swapping :
    (swapping.solve [2, 4, 5] = .ok [1, 2, 3] ∧ swapping.mulVec [1, 2, 3] = [2, 4, 5] ∧
      IsUnit swapping.coefficients ∧
      ∀ y : List Rat, y.length = 3 → swapping.mulVec y = [2, 4, 5] → y = [1, 2, 3]) ∧
    ¬ IsUnit dependent.coefficients ∧
    dependent.solve [1, 1] = .error (.failed .singularMatrix) ∧
    ∃ k < 2, Row.GivesUp 2 (Row.zip dependent.rows [1, 1]) k := by
  have hsolved : swapping.solve [2, 4, 5] = .ok [1, 2, 3] :=
    eq_ok_of_toOption (by decide +kernel)
  have hunit : ¬ IsUnit dependent.coefficients := fun h => by
    have hsame : dependent.mulVec [2, -1] = dependent.mulVec [0, 0] := by decide +kernel
    exact absurd (eq_of_mulVec h rfl rfl hsame) (by decide +kernel)
  obtain ⟨hok, -⟩ := solve_decides swapping (b := [2, 4, 5]) rfl
  obtain ⟨-, hmul, hinverse, honly⟩ := hok _ hsolved
  obtain ⟨-, hgives, hsingular, -⟩ := solve_decides dependent (b := [1, 1]) rfl
  exact ⟨⟨hsolved, hmul, hinverse, honly⟩, hunit, hsingular hunit, hgives.1 (hsingular hunit)⟩

end Matrix

end Nodal
