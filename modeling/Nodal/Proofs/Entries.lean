import Nodal.Proofs.Exact
import Nodal.Proofs.Outcomes
import Nodal.Equation

/-! # Entries of a matrix

A matrix small enough for its positions not to wrap around is known by its entries. Adding to a cell
changes one of them, and the product with a column is a sum of them. -/

namespace Nodal.Matrix
variable {α : Type}

theorem position_lt {n i j : Nat} (hi : i < n) (hj : j < n) : i * n + j < n * n := by
  have := Nat.mul_le_mul_right n (Nat.succ_le_of_lt hi)
  rw [Nat.succ_mul] at this
  omega

theorem position_inj {n i j r c : Nat} (hj : j < n) (hc : c < n) :
    i * n + j = r * n + c ↔ i = r ∧ j = c := by
  refine ⟨fun h => ?_, fun ⟨hi, hj⟩ => by rw [hi, hj]⟩
  have hi : i = r := by
    have := congrArg (· / n) h
    simpa [Nat.mul_comm _ n, Nat.mul_add_div (Nat.zero_lt_of_lt hj), Nat.div_eq_of_lt hj,
      Nat.div_eq_of_lt hc] using this
  exact ⟨hi, by rw [hi] at h; omega⟩

theorem index_eq (m : Matrix α) {r c : Nat} (hr : r < m.size) (hc : c < m.size)
    (hm : m.size < Equation.sizeLimit) : m.index r c = r * m.size + c := by
  refine Nat.mod_eq_of_lt ((position_lt hr hc).trans ?_)
  have := Nat.mul_lt_mul_of_lt_of_lt hm hm
  have : Equation.sizeLimit * Equation.sizeLimit < UInt64.size := by decide
  omega

theorem index_lt (m : Matrix α) {r c : Nat} (hr : r < m.size) (hc : c < m.size)
    (hm : m.size < Equation.sizeLimit) : m.index r c < m.cells.size := by
  rw [m.index_eq hr hc hm, m.cells_size]
  exact position_lt hr hc

/-- The number in row `i` and column `j`. -/
def entry [Scalar α] (m : Matrix α) (i j : Nat) : α := m.cells.getD (i * m.size + j) 0

theorem get_ok [Scalar α] (m : Matrix α) {r c : Nat} (hr : r < m.size) (hc : c < m.size)
    (hm : m.size < Equation.sizeLimit) : m.get r c = .ok (m.entry r c) := by
  have hlt := m.index_lt hr hc hm
  rw [get, entry, ← m.index_eq hr hc hm, Array.getElem?_eq_getElem hlt,
    Array.getD_eq_getD_getElem?, Array.getElem?_eq_getElem hlt]
  rfl

/-- A cell within a small matrix can be changed, and no other entry changes with it. -/
theorem modify_ok [Scalar α] (m : Matrix α) {r c : Nat} (f : α → α) (hr : r < m.size)
    (hc : c < m.size) (hm : m.size < Equation.sizeLimit) :
    ∃ m', m.modify r c f = .ok m' ∧ m'.size = m.size ∧
      ∀ i j, j < m.size →
        m'.entry i j = if i = r ∧ j = c then f (m.entry i j) else m.entry i j := by
  refine ⟨_, if_pos (m.index_lt hr hc hm), rfl, fun i j hj => ?_⟩
  simp only [entry, Array.getD_eq_getD_getElem?, Array.getElem?_modify, m.index_eq hr hc hm,
    eq_comm (a := r * m.size + c), position_inj hj hc]
  split
  · rename_i h
    have hlt : i * m.size + j < m.cells.size := by
      rw [m.cells_size, h.1]; exact position_lt hr hj
    simp [Array.getElem?_eq_getElem hlt]
  · rfl

theorem length_row (m : Matrix α) {i : Nat} (hi : i < m.size) :
    (m.cells.extract (i * m.size) (i * m.size + m.size)).toList.length = m.size := by
  have := Nat.mul_le_mul_right m.size (Nat.succ_le_of_lt hi)
  rw [Nat.succ_mul] at this
  simp only [Array.length_toList, Array.size_extract, m.cells_size]
  omega

theorem getD_row [Scalar α] (m : Matrix α) (i : Nat) {j : Nat} (hj : j < m.size) :
    (m.cells.extract (i * m.size) (i * m.size + m.size)).toList.getD j 0 = m.entry i j := by
  simp only [entry, List.getD_eq_getElem?_getD, Array.getElem?_toList, Array.getElem?_extract,
    Array.getD_eq_getD_getElem?]
  split
  · rfl
  · rw [Array.getElem?_eq_none (by omega)]

variable [ExactScalar α]

theorem add_ok (m : Matrix α) {r c : Nat} (v : α) (hr : r < m.size) (hc : c < m.size)
    (hm : m.size < Equation.sizeLimit) :
    ∃ m', m.add r c v = .ok m' ∧ m'.size = m.size ∧
      ∀ i j, j < m.size → m'.entry i j = m.entry i j + if i = r ∧ j = c then v else 0 := by
  obtain ⟨m', hm', hs, he⟩ := m.modify_ok (· + v) hr hc hm
  refine ⟨m', hm', hs, fun i j hj => ?_⟩
  rw [he i j hj]
  split <;> simp

/-- What row `i` makes of a column. -/
def rowSum (m : Matrix α) (x : List α) (i : Nat) : α :=
  ∑ j ∈ Finset.range m.size, m.entry i j * x.getD j 0

theorem mulVec_eq (m : Matrix α) (x : List α) :
    m.mulVec x = (List.range m.size).map (m.rowSum x) := by
  simp only [mulVec, rows, List.map_map]
  refine List.map_congr_left fun i hi => ?_
  simp only [Function.comp_apply, rowSum]
  rw [Scalar.dot_eq_sum, m.length_row (List.mem_range.1 hi)]
  exact Finset.sum_congr rfl fun j hj => by rw [m.getD_row i (Finset.mem_range.1 hj)]

theorem getD_mulVec (m : Matrix α) (x : List α) {i : Nat} (hi : i < m.size) :
    (m.mulVec x).getD i 0 = m.rowSum x i := by
  rw [mulVec_eq]
  simp [List.getD_eq_getElem?_getD, hi]

theorem rowSum_of_entry {m m' : Matrix α} {r c : Nat} {v : α} (hc : c < m.size)
    (hs : m'.size = m.size)
    (he : ∀ i j, j < m.size → m'.entry i j = m.entry i j + if i = r ∧ j = c then v else 0)
    (x : List α) (i : Nat) :
    m'.rowSum x i = m.rowSum x i + if i = r then v * x.getD c 0 else 0 := by
  have h : ∀ j ∈ Finset.range m.size, m'.entry i j * x.getD j 0 =
      m.entry i j * x.getD j 0 + if j = c then (if i = r then v * x.getD c 0 else 0) else 0 := by
    intro j hj
    rw [he i j (Finset.mem_range.1 hj)]
    by_cases hjc : j = c <;> by_cases hir : i = r <;> simp [hjc, hir, add_mul]
  rw [rowSum, hs, Finset.sum_congr rfl h, Finset.sum_add_distrib, Finset.sum_ite_eq',
    if_pos (Finset.mem_range.2 hc)]
  rfl

end Nodal.Matrix
