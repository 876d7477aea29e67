import PolyCalc.Fault
import PolyCalc.Scalar
import PolyCalc.Squaring

/-!
Matrices, as grids of cells in row order.

A matrix built by `ofCells` has at least one row and one column and exactly as
many cells as its shape says (`Mat.WellFormed`), and every operation keeps it
so. Products and texts read cells by position; a cell that is not there would
be a fault.
-/

namespace PolyCalc

/-- A matrix: the cell at row `r` and column `c`, both from 0, has position
`r * columns + c`. -/
structure Mat (α : Type) where
  shape : Shape
  cells : Array α
deriving BEq, Repr

namespace Mat

variable {α : Type}

/-- At least one row and one column, and every cell is there. -/
structure WellFormed (m : Mat α) : Prop where
  rows_pos : 0 < m.shape.rows
  columns_pos : 0 < m.shape.columns
  cells_size : m.cells.size = m.shape.size

/-- The matrix with the given cells, row by row. -/
def ofCells (shape : Shape) (cells : List α) : Except Fault (Mat α) :=
  if shape.rows = 0 ∨ shape.columns = 0 then .error (.invalidDimensions (.empty shape))
  else if cellLimit ≤ shape.size then .error (.invalidDimensions (.tooLarge shape))
  else if cells.length ≠ shape.size then
    .error (.dimensionMismatch (.cellCount shape cells.length))
  else .ok ⟨shape, cells.toArray⟩

/-- Whether the matrix is a single column. -/
def isVector (m : Mat α) : Bool := m.shape.columns == 1

/-- The cell at a row and a column, if the matrix has them. -/
def get? (m : Mat α) (row column : Nat) : Option α :=
  if row < m.shape.rows ∧ column < m.shape.columns then
    m.cells[row * m.shape.columns + column]?
  else none

/-- The cell at a position that the caller takes to be there. -/
def cell (m : Mat α) (row column : Nat) : Except Fault α :=
  match m.cells[row * m.shape.columns + column]? with
  | some c => .ok c
  | none => .error .outOfRange

/-- The cells of a row that the caller takes to be there. -/
def row (m : Mat α) (r : Nat) : Except Fault (List α) :=
  let first := r * m.shape.columns
  let last := (r + 1) * m.shape.columns
  if last ≤ m.cells.size then .ok (m.cells.extract first last).toList
  else .error .outOfRange

/-! ### Cellwise operations -/

def map (f : α → α) (m : Mat α) : Mat α := ⟨m.shape, m.cells.map f⟩

/-- Combines the cells of two matrices of one shape; `verb` names the operation
in the report of a mismatch. -/
def zipCells (verb : String) (op : α → α → α) (a b : Mat α) : Except Fault (Mat α) :=
  if a.shape ≠ b.shape then .error (.dimensionMismatch (.cellwise verb a.shape b.shape))
  else .ok ⟨a.shape, a.cells.zipWith op b.cells⟩

variable [Scalar α]

def add (a b : Mat α) : Except Fault (Mat α) := zipCells "add" (· + ·) a b

def sub (a b : Mat α) : Except Fault (Mat α) := zipCells "subtract" (· - ·) a b

def scale (m : Mat α) (factor : α) : Mat α := m.map (· * factor)

/-! ### Products and powers -/

/-- The rows and columns of a shape, in row order. -/
def positions (shape : Shape) : List (Nat × Nat) :=
  (List.range shape.rows).flatMap fun r => (List.range shape.columns).map fun c => (r, c)

/-- The product of row `r` of `a` with column `c` of `b`. -/
def productCell (a b : Mat α) (r c : Nat) : Except Fault α :=
  (List.range a.shape.columns).foldlM
    (fun sum i => do return sum + (← a.cell r i) * (← b.cell i c)) Scalar.seed

def mul (a b : Mat α) : Except Fault (Mat α) :=
  if a.shape.columns ≠ b.shape.rows then
    .error (.dimensionMismatch (.product a.shape b.shape))
  else do
    let shape : Shape := ⟨a.shape.rows, b.shape.columns⟩
    let cells ← (positions shape).mapM fun (r, c) => productCell a b r c
    return ⟨shape, cells.toArray⟩

/-- The square matrix with ones on its diagonal. -/
def identity (n : Nat) : Mat α where
  shape := ⟨n, n⟩
  cells := ((positions ⟨n, n⟩).map fun (r, c) => if r = c then (1 : α) else 0).toArray

/-- The `n`-th power of a square matrix. -/
def pow (m : Mat α) (n : Nat) : Except Fault (Mat α) :=
  if m.shape.rows ≠ m.shape.columns then .error (.dimensionMismatch (.notSquare m.shape))
  else timesPower mul (identity m.shape.rows) m n

end Mat

end PolyCalc
