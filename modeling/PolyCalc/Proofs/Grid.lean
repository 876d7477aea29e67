import PolyCalc.Proofs.Complete

/-!
Matrices by their entries.

The cells of a matrix stand in row order, so the cell of row `r` and column `c` has the
position `r * columns + c`, and the rows and columns of a shape come in the same order
(`getElem?_positions`). A table of entries (`tabulate`) can therefore be read back by rows
and columns, and a complete matrix is the table of its entries (`Complete.tabulate_entry`).

Main statement: a product is the table of the sums of products of rows with columns, each
from the seed on and in the order of the columns (`mul_cells`). Nothing is assumed about the
scalars, so the order of the sums counts.
-/

namespace PolyCalc.Mat

variable {α : Type}

/-! ### Positions -/

theorem positions_succ (rows columns : Nat) :
    positions ⟨rows + 1, columns⟩ =
      positions ⟨rows, columns⟩ ++ (List.range columns).map fun c => (rows, c) := by
  simp [positions, List.range_succ]

/-- The row and the column at the position of a cell. -/
theorem getElem?_positions {rows columns r c : Nat} (row : r < rows) (column : c < columns) :
    (positions ⟨rows, columns⟩)[r * columns + c]? = some (r, c) := by
  induction rows with
  | zero => cases row
  | succ rows ih =>
      have size : (positions ⟨rows, columns⟩).length = rows * columns := length_positions _
      rw [positions_succ]
      rcases Nat.lt_succ_iff_lt_or_eq.mp row with above | rfl
      · -- The rows above the last one are as they were.
        rw [List.getElem?_append_left (size ▸ position_lt above column)]
        exact ih above
      · rw [List.getElem?_append_right (size ▸ Nat.le_add_right ..), size, Nat.add_sub_cancel_left]
        simp [column]

/-- Every position of a cell is that of a row and a column. -/
theorem exists_position {rows columns i : Nat} (inside : i < rows * columns) :
    ∃ r c, r < rows ∧ c < columns ∧ i = r * columns + c := by
  have positive : 0 < columns := by
    apply Nat.pos_of_ne_zero
    rintro rfl
    cases inside
  refine ⟨i / columns, i % columns, ?_, Nat.mod_lt _ positive, ?_⟩
  · exact (Nat.div_lt_iff_lt_mul positive).mpr inside
  · rw [Nat.mul_comm, Nat.div_add_mod]

/-! ### Tables -/

/-- The matrix with the given entries. -/
def tabulate (shape : Shape) (f : Nat → Nat → α) : Mat α :=
  ⟨shape, ((positions shape).map fun p => f p.1 p.2).toArray⟩

@[simp] theorem shape_tabulate (shape : Shape) (f : Nat → Nat → α) :
    (tabulate shape f).shape = shape := rfl

theorem complete_tabulate (shape : Shape) (f : Nat → Nat → α) : (tabulate shape f).Complete := by
  simp only [Complete, tabulate, List.size_toArray, List.length_map, length_positions]

theorem get?_tabulate {rows columns r c : Nat} (row : r < rows) (column : c < columns)
    (f : Nat → Nat → α) : (tabulate ⟨rows, columns⟩ f).get? r c = some (f r c) := by
  rw [get?, if_pos ⟨row, column⟩]
  simp [tabulate, getElem?_positions row column]

/-- There is nothing outside of the shape. -/
theorem get?_outside {m : Mat α} {r c : Nat}
    (outside : ¬(r < m.shape.rows ∧ c < m.shape.columns)) : m.get? r c = none :=
  if_neg outside

/-- Only the entries inside of the shape matter. -/
theorem tabulate_congr {shape : Shape} {f g : Nat → Nat → α}
    (same : ∀ r c, r < shape.rows → c < shape.columns → f r c = g r c) :
    tabulate shape f = tabulate shape g := by
  refine congrArg (fun cells => Mat.mk shape cells.toArray) (List.map_congr_left ?_)
  intro p member
  obtain ⟨row, column⟩ := mem_positions member
  exact same p.1 p.2 row column

section

variable [Scalar α] {m : Mat α} {r c : Nat}

/-- The entry at a row and a column. Outside of the shape it is zero. -/
def entry (m : Mat α) (r c : Nat) : α := (m.get? r c).getD 0

theorem entry_tabulate {rows columns : Nat} (row : r < rows) (column : c < columns)
    (f : Nat → Nat → α) : (tabulate ⟨rows, columns⟩ f).entry r c = f r c := by
  rw [entry, get?_tabulate row column, Option.getD_some]

/-- The entry of a row and a column is the cell at their position. -/
theorem Complete.getElem?_cells (hm : m.Complete) (row : r < m.shape.rows)
    (column : c < m.shape.columns) :
    m.cells[r * m.shape.columns + c]? = some (m.entry r c) := by
  have inside : r * m.shape.columns + c < m.cells.size :=
    Nat.lt_of_lt_of_eq (position_lt row column) hm.symm
  rw [entry, get?, if_pos ⟨row, column⟩, Array.getElem?_eq_getElem inside, Option.getD_some]

theorem Complete.get?_eq (hm : m.Complete) (row : r < m.shape.rows)
    (column : c < m.shape.columns) : m.get? r c = some (m.entry r c) := by
  rw [get?, if_pos ⟨row, column⟩, hm.getElem?_cells row column]

theorem Complete.cell_eq (hm : m.Complete) (row : r < m.shape.rows)
    (column : c < m.shape.columns) : m.cell r c = .ok (m.entry r c) := by
  rw [cell, hm.getElem?_cells row column]

/-- A complete matrix is the table of its entries. -/
theorem Complete.tabulate_entry (hm : m.Complete) : tabulate m.shape m.entry = m := by
  obtain ⟨⟨rows, columns⟩, cells⟩ := m
  refine congrArg (Mat.mk ⟨rows, columns⟩) (Array.ext_getElem? fun i => ?_)
  by_cases inside : i < rows * columns
  · -- Every position is that of a row and a column, where both sides can be read.
    obtain ⟨r, c, row, column, rfl⟩ := exists_position inside
    rw [hm.getElem?_cells row column]
    simp [getElem?_positions row column]
  · have past : rows * columns ≤ i := Nat.le_of_not_lt inside
    rw [Array.getElem?_eq_none (Nat.le_trans (Nat.le_of_eq hm) past)]
    simp [length_positions, Shape.size, past]

/-- A row of a complete matrix has an entry for each column. -/
theorem Complete.row_eq (hm : m.Complete) (inside : r < m.shape.rows) :
    m.row r = .ok ((List.range m.shape.columns).map (m.entry r)) := by
  have within : (r + 1) * m.shape.columns ≤ m.cells.size := by
    calc (r + 1) * m.shape.columns
      _ ≤ m.shape.rows * m.shape.columns := Nat.mul_le_mul_right _ inside
      _ = m.cells.size := hm.symm
  rw [row, if_pos within]
  refine congrArg Except.ok (List.ext_getElem? fun c => ?_)
  have width : (r + 1) * m.shape.columns - r * m.shape.columns = m.shape.columns := by
    rw [Nat.succ_mul, Nat.add_sub_cancel_left]
  rw [Array.toList_extract, List.extract_eq_take_drop, width, List.getElem?_take,
    List.getElem?_drop, List.getElem?_map]
  by_cases column : c < m.shape.columns
  · rw [if_pos column, List.getElem?_range column, Array.getElem?_toList,
      hm.getElem?_cells inside column]
    rfl
  · rw [if_neg column, List.getElem?_eq_none (by simpa using column)]
    rfl

/-! ### Cellwise operations -/

variable {a b : Mat α}

/-- Cells that are combined in pairs have the same row and column. -/
theorem zipCells_eq (ha : a.Complete) (hb : b.Complete) (same : a.shape = b.shape) (verb : String)
    (op : α → α → α) :
    zipCells verb op a b = .ok (tabulate a.shape fun r c => op (a.entry r c) (b.entry r c)) := by
  have left : a.cells = ((positions a.shape).map fun p => a.entry p.1 p.2).toArray :=
    congrArg cells ha.tabulate_entry.symm
  have right : b.cells = ((positions a.shape).map fun p => b.entry p.1 p.2).toArray := by
    rw [same]
    exact congrArg cells hb.tabulate_entry.symm
  rw [zipCells, if_neg (not_not_intro same), left, right]
  simp [tabulate, List.zipWith_map]

/-! ### Products -/

/-- The products of a row with a column, summed in their order. -/
def dot (a b : Mat α) (r c : Nat) : α :=
  ((List.range a.shape.columns).map fun i => a.entry r i * b.entry i c).foldl (· + ·) Scalar.seed

theorem productCell_eq (ha : a.Complete) (hb : b.Complete)
    (agree : a.shape.columns = b.shape.rows) (row : r < a.shape.rows)
    (column : c < b.shape.columns) : productCell a b r c = .ok (a.dot b r c) := by
  rw [dot, List.foldl_map]
  apply foldlM_eq_foldl
  intro sum i member
  have inside : i < a.shape.columns := List.mem_range.mp member
  rw [ha.cell_eq row inside, hb.cell_eq (agree ▸ inside) column]
  rfl

/-- A product is the table of the products of rows with columns. -/
theorem mul_eq (ha : a.Complete) (hb : b.Complete) (agree : a.shape.columns = b.shape.rows) :
    a.mul b = .ok (tabulate ⟨a.shape.rows, b.shape.columns⟩ (a.dot b)) := by
  have each : ∀ p ∈ positions ⟨a.shape.rows, b.shape.columns⟩,
      productCell a b p.1 p.2 = .ok (a.dot b p.1 p.2) := by
    intro p member
    obtain ⟨row, column⟩ := mem_positions member
    exact productCell_eq ha hb agree row column
  unfold mul
  rw [if_neg (not_not_intro agree)]
  exact congrArg (· >>= fun cells => pure (Mat.mk _ cells.toArray)) (mapM_eq_map each)

theorem mul_mismatch (disagree : a.shape.columns ≠ b.shape.rows) :
    a.mul b = .error (.dimensionMismatch (.product a.shape b.shape)) :=
  if_pos disagree

/-- Sizes decide whether there is a product, and nothing else does. -/
theorem mul_error_iff (ha : a.Complete) (hb : b.Complete) (fault : Fault) :
    a.mul b = .error fault ↔
      a.shape.columns ≠ b.shape.rows ∧ fault = .dimensionMismatch (.product a.shape b.shape) := by
  constructor
  · intro failed
    by_cases agree : a.shape.columns = b.shape.rows
    · rw [mul_eq ha hb agree] at failed
      cases failed
    · rw [mul_mismatch agree] at failed
      exact ⟨agree, (Except.error.inj failed).symm⟩
  · rintro ⟨disagree, rfl⟩
    exact mul_mismatch disagree

end

/-- A product fails if and only if the columns of the left side are not the rows of the right
one. Otherwise it has the rows of the left side and the columns of the right one, and the cell
of a row and a column is the sum of their products, from the seed on and in their order. All
the cells that are multiplied are there, and outside of its shape the product has none. -/
theorem mul_cells {α : Type} [Scalar α] {a b : Mat α} (ha : a.WellFormed) (hb : b.WellFormed) :
    (∀ fault, a.mul b = .error fault ↔
      a.shape.columns ≠ b.shape.rows ∧ fault = .dimensionMismatch (.product a.shape b.shape)) ∧
    (a.shape.columns = b.shape.rows → ∃ m, a.mul b = .ok m ∧ m.WellFormed ∧
      m.shape = ⟨a.shape.rows, b.shape.columns⟩ ∧
      (∀ r c, r < a.shape.rows → c < b.shape.columns →
        (∀ i < a.shape.columns,
          a.get? r i = some (a.entry r i) ∧ b.get? i c = some (b.entry i c)) ∧
        m.get? r c = some (((List.range a.shape.columns).map fun i =>
          a.entry r i * b.entry i c).foldl (· + ·) Scalar.seed)) ∧
      ∀ r c, ¬(r < a.shape.rows ∧ c < b.shape.columns) → m.get? r c = none) := by
  have left : a.Complete := ha.cells_size
  have right : b.Complete := hb.cells_size
  refine ⟨mul_error_iff left right, ?_⟩
  intro agree
  have product := mul_eq left right agree
  refine ⟨_, product, wellFormed_mul ha hb product, rfl, ?_, ?_⟩
  · intro r c row column
    refine ⟨?_, get?_tabulate row column (a.dot b)⟩
    intro i inside
    exact ⟨left.get?_eq row inside, right.get?_eq (agree ▸ inside) column⟩
  · intro r c outside
    exact get?_outside outside

/-- Binary64 numbers show the order of a sum and that it starts from the negative zero. -/
theorem mul_cells_floats :
    ∃ m : Mat Float, mul ⟨⟨1, 3⟩, #[1e16, -1e16, 1]⟩ ⟨⟨3, 2⟩, #[1, -0.0, 1, 0, 1, -0.0]⟩ = .ok m ∧
      m.get? 0 0 = some 1 ∧ m.get? 0 1 = some (-0.0) ∧ m.get? 1 0 = none := by
  obtain ⟨-, fitting⟩ := mul_cells (a := ⟨⟨1, 3⟩, #[1e16, -1e16, 1]⟩)
    (b := ⟨⟨3, 2⟩, #[1, -0.0, 1, 0, 1, -0.0]⟩) ⟨by decide, by decide, rfl⟩
    ⟨by decide, by decide, rfl⟩
  obtain ⟨m, product, -, -, cells, outside⟩ := fitting rfl
  refine ⟨m, product, ?_, ?_, ?_⟩
  · rw [(cells 0 0 (by decide) (by decide)).2]
    decide +kernel
  · rw [(cells 0 1 (by decide) (by decide)).2]
    decide +kernel
  · exact outside 1 0 (by decide)

end PolyCalc.Mat
