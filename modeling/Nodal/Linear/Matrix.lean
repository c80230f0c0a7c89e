import Nodal.Failure

/-! # Square matrices

The cells stand row by row in one array, and only the position in the array is checked: a column
beyond the last one reaches into the next row. Positions are machine words, so they wrap around. -/

namespace Nodal

/-- A matrix with `size` rows and as many columns. -/
structure Matrix (α : Type) where
  size : Nat
  cells : Array α
  cells_size : cells.size = size * size

namespace Matrix
variable {α : Type}

def index (m : Matrix α) (row col : Nat) : Nat := (row * m.size + col) % UInt64.size

def get (m : Matrix α) (row col : Nat) : Outcome α α :=
  match m.cells[m.index row col]? with
  | some v => pure v
  | none => .misuse .outOfRange

def modify (m : Matrix α) (row col : Nat) (f : α → α) : Outcome α (Matrix α) :=
  if m.index row col < m.cells.size then
    pure { m with
      cells := m.cells.modify (m.index row col) f
      cells_size := by rw [Array.size_modify, m.cells_size] }
  else .misuse .outOfRange

def set (m : Matrix α) (row col : Nat) (v : α) : Outcome α (Matrix α) :=
  m.modify row col fun _ => v

def row (m : Matrix α) (r : Nat) : Outcome α (List α) :=
  let first := r * m.size % UInt64.size
  let last := (r + 1) % UInt64.size * m.size % UInt64.size
  if first ≤ last ∧ last ≤ m.cells.size then pure (m.cells.extract first last).toList
  else .misuse .outOfRange

def rows (m : Matrix α) : List (List α) :=
  (List.range m.size).map fun i => (m.cells.extract (i * m.size) (i * m.size + m.size)).toList

theorem length_flatten_of_forall {n : Nat} (rows : List (List α)) (h : ∀ r ∈ rows, r.length = n) :
    rows.flatten.length = rows.length * n := by
  induction rows with
  | nil => rw [List.flatten_nil, List.length_nil, List.length_nil, Nat.zero_mul]
  | cons r rest ih =>
    obtain ⟨hr, hrest⟩ := List.forall_mem_cons.1 h
    rw [List.flatten_cons, List.length_append, hr, ih hrest, List.length_cons, Nat.succ_mul,
      Nat.add_comm]

/-- The matrix of some rows, each as long as there are rows. -/
def ofRows (rows : List (List α)) : Outcome α (Matrix α) :=
  if h : ∀ r ∈ rows, r.length = rows.length then
    pure {
      size := rows.length
      cells := rows.flatten.toArray
      cells_size := by simpa using length_flatten_of_forall rows h }
  else .misuse .notSquare

def exchangeCells (m : Matrix α) (i j : Nat) : Outcome α (Matrix α) :=
  if h : i < m.cells.size ∧ j < m.cells.size then
    pure { m with
      cells := m.cells.swap i j h.1 h.2
      cells_size := by rw [Array.size_swap, m.cells_size] }
  else .misuse .outOfRange

/-- Exchanges two rows, cell by cell. -/
def swapRows (m : Matrix α) (a b : Nat) : Outcome α (Matrix α) :=
  if a = b then pure m
  else (List.range m.size).foldlM
    (fun m j => m.exchangeCells (m.index a j) (m.index b j)) m

variable [Scalar α]

def zeros (n : Nat) : Matrix α :=
  { size := n, cells := Array.replicate (n * n) 0, cells_size := Array.size_replicate }

def add (m : Matrix α) (row col : Nat) (v : α) : Outcome α (Matrix α) :=
  m.modify row col (· + v)

def mulVec (m : Matrix α) (x : List α) : List α :=
  m.rows.map (Scalar.dot · x)

def mapDiagonal (m : Matrix α) (f : α → α) : Matrix α :=
  { m with
    cells := (List.range m.size).foldl (fun cells i => cells.modify (i * m.size + i) f) m.cells
    cells_size := by
      rw [← m.cells_size]
      generalize m.cells = cells
      generalize List.range m.size = js
      induction js generalizing cells with
      | nil => rfl
      | cons j js ih => rw [List.foldl_cons, ih, Array.size_modify] }

end Matrix

end Nodal
