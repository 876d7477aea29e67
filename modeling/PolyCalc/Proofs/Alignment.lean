import PolyCalc.Eval.Run
import PolyCalc.Proofs.Grid
import PolyCalc.Proofs.Number.Texts

/-!
Texts of matrices as grids.

The text of a matrix has a line for each row, and each line a text for each cell of the row.
The texts of cells have no marks of lines or cells in them, so lines and cells can be told
apart (`splitOn_text`, `plain_cellText`).

The space in front of a cell comes from a comparison with zero, and the minus sign from the
sign of the number. Two numbers show that these are not the same (`misaligned`): the negative
zero is not below zero and has both, and NaN is neither below zero nor above it and has
none. All other numbers have one column for their sign (`signColumn_iff`).
-/

namespace PolyCalc.Mat

open Number

/-! ### Cells -/

section

variable {x : Float}

theorem cellText_of_neg (below : x < 0.0) : cellText x = "-" ++ fixed 2 x.abs := by
  rw [cellText, if_neg (not_nonneg_of_neg below), fixed_eq 2 x, mark_of_neg below,
    String.empty_append]

theorem cellText_of_nonneg (above : 0.0 ≤ x) : cellText x = " " ++ fixed 2 x := by
  rw [cellText, if_pos above]

theorem fixed_negativeZero (parts : unpack x = .zero .negative) : fixed 2 x = "-0.00" := by
  rw [fixed, parts]
  decide

theorem cellText_negativeZero (parts : unpack x = .zero .negative) : cellText x = " -0.00" := by
  have above : 0.0 ≤ x := by
    rw [nonneg_iff, parts]
    rfl
  rw [cellText_of_nonneg above, fixed_negativeZero parts]
  rfl

theorem cellText_nan (parts : unpack x = .notANumber) : cellText x = "NaN" := by
  have notAbove : ¬0.0 ≤ x := by
    rw [nonneg_iff, parts]
    nofun
  rw [cellText, if_neg notAbove, fixed, parts, String.empty_append]

/-- The text has one column for the sign of the number. -/
def SignColumn (x : Float) (text : String) : Prop :=
  text = "-" ++ fixed 2 x.abs ∨ text = " " ++ fixed 2 x ∧ (fixed 2 x).toList.head? ≠ some '-'

/-- The column of a sign is a minus sign or a space. -/
theorem SignColumn.head {text : String} (column : SignColumn x text) :
    text.toList.head? = some '-' ∨ text.toList.head? = some ' ' := by
  rcases column with rfl | ⟨rfl, -⟩
  · exact .inl (by rw [String.toList_append]; rfl)
  · exact .inr (by rw [String.toList_append]; rfl)

theorem signColumn_iff (x : Float) :
    SignColumn x (cellText x) ↔ unpack x ≠ .zero .negative ∧ unpack x ≠ .notANumber := by
  constructor
  · intro column
    refine ⟨fun parts => ?_, fun parts => ?_⟩
    · rcases column with minus | ⟨-, unsigned⟩
      · rw [cellText_negativeZero parts] at minus
        have first := congrArg (fun s => s.toList.head?) minus
        rw [String.toList_append] at first
        cases first
      · rw [fixed_negativeZero parts] at unsigned
        exact unsigned rfl
    · have head := column.head
      rw [cellText_nan parts] at head
      rcases head with minus | space
      · cases minus
      · cases space
  · rintro ⟨other, ordered⟩
    rcases neg_or_nonneg ordered with below | above
    · exact .inl (cellText_of_neg below)
    · refine .inr ⟨cellText_of_nonneg above, fun minus => ?_⟩
      have magnitude : fixed 2 x = fixed 2 x.abs := by
        rw [fixed_eq 2 x, mark_of_nonneg above other, String.empty_append]
      rw [magnitude] at minus
      rcases mem_fixed_abs (List.mem_of_mem_head? minus) with letter | point
      · cases letter
      · cases point

/-- The text has no mark of a line or a cell in it. -/
def Plain (text : String) : Prop := ∀ c ∈ text.toList, c ≠ '\n' ∧ c ≠ ',' ∧ c ≠ '|'

theorem plain_cellText (x : Float) : Plain (cellText x) := by
  intro c member
  rw [cellText, fixed_eq, String.toList_append, String.toList_append, List.mem_append,
    List.mem_append] at member
  rcases member with space | minus | magnitude
  · split at space
    · rw [List.mem_singleton.mp space]
      decide
    · cases space
  · rw [eq_minus_of_mem_mark minus]
    decide
  · rcases mem_fixed_abs magnitude with letter | rfl
    · refine ⟨?_, ?_, ?_⟩ <;> rintro rfl <;> cases letter
    · decide

/-- What is written for a number in a cell. -/
structure CellSpec (x : Float) (text : String) : Prop where
  plain : Plain text
  column : SignColumn x text ↔ unpack x ≠ .zero .negative ∧ unpack x ≠ .notANumber
  negative : x < 0.0 → text = "-" ++ fixed 2 x.abs
  nonnegative : 0.0 ≤ x → text = " " ++ fixed 2 x
  negativeZero : unpack x = .zero .negative → text = " -0.00"
  nan : unpack x = .notANumber → text = "NaN"

theorem cellSpec_cellText (x : Float) : CellSpec x (cellText x) where
  plain := plain_cellText x
  column := signColumn_iff x
  negative := cellText_of_neg
  nonnegative := cellText_of_nonneg
  negativeZero := cellText_negativeZero
  nan := cellText_nan

end

/-! ### Lines -/

theorem mem_intercalate {α : Type} {sep : List α} {parts : List (List α)} {a : α}
    (member : a ∈ sep.intercalate parts) : a ∈ sep ∨ ∃ part ∈ parts, a ∈ part := by
  induction parts with
  | nil => cases member
  | cons part parts ih =>
      cases parts with
      | nil =>
          rw [List.intercalate_singleton] at member
          exact .inr ⟨part, List.mem_singleton_self part, member⟩
      | cons next more =>
          rw [List.intercalate_cons_cons, List.mem_append, List.mem_append] at member
          rcases member with (first | between) | later
          · exact .inr ⟨part, List.mem_cons_self, first⟩
          · exact .inl between
          · exact (ih later).imp_right fun ⟨p, inside, found⟩ =>
              ⟨p, List.mem_cons_of_mem part inside, found⟩

theorem newline_not_mem_rowText (cells : List Float) : '\n' ∉ (rowText cells).toList := by
  intro member
  rw [rowText, String.toList_append, String.toList_append, String.toList_intercalate,
    List.mem_append, List.mem_append] at member
  rcases member with (bar | cell) | bar
  · cases List.mem_singleton.mp bar
  · rcases mem_intercalate cell with between | ⟨part, inside, found⟩
    · revert between
      decide
    · obtain ⟨text, texts, rfl⟩ := List.mem_map.mp inside
      obtain ⟨x, -, rfl⟩ := List.mem_map.mp texts
      exact (plain_cellText x _ found).1 rfl
  · cases List.mem_singleton.mp bar

/-- The text of a row of entries. -/
def line (m : Mat Float) (r : Nat) : String :=
  rowText ((List.range m.shape.columns).map (m.entry r))

theorem lines_eq {m : Mat Float} (complete : m.Complete) :
    m.lines = .ok ((List.range m.shape.rows).map m.line) := by
  refine mapM_eq_map fun r member => ?_
  rw [complete.row_eq (List.mem_range.mp member)]
  rfl

theorem text_eq {m : Mat Float} (complete : m.Complete) :
    m.text = String.intercalate "\n" ((List.range m.shape.rows).map m.line) := by
  rw [text, lines_eq complete]

/-- The lines can be told apart. -/
theorem splitOn_text {m : Mat Float} (sound : m.WellFormed) :
    m.text.toList.splitOn '\n' = ((List.range m.shape.rows).map m.line).map String.toList := by
  rw [text_eq sound.cells_size, String.toList_intercalate]
  apply List.splitOn_intercalate
  · intro l member
    obtain ⟨text, texts, rfl⟩ := List.mem_map.mp member
    obtain ⟨r, -, rfl⟩ := List.mem_map.mp texts
    exact newline_not_mem_rowText _
  · intro empty
    have rows := congrArg List.length empty
    rw [List.length_map, List.length_map, List.length_range] at rows
    exact Nat.ne_of_gt sound.rows_pos rows

/-- The text of a matrix is a grid of the texts of its cells: a line for each row, in which the
texts stand between bars with a comma and a space from one to the next, a text for each
column. None of them has a mark of a line or a cell in it. A number below zero has a minus
sign before its magnitude, and others have a space before their text. The text has one column
for the sign if and only if the number is neither the negative zero, which has two, nor NaN,
which has none. -/
theorem text_grid {m : Mat Float} (sound : m.WellFormed) :
    ∃ lines : List String, m.text = String.intercalate "\n" lines ∧
      m.text.toList.splitOn '\n' = lines.map String.toList ∧ lines.length = m.shape.rows ∧
      ∀ r < m.shape.rows, ∃ cells : List String,
        lines[r]? = some ("|" ++ String.intercalate ", " cells ++ "|") ∧
        cells.length = m.shape.columns ∧
        ∀ c < m.shape.columns, ∃ x text, m.get? r c = some x ∧ cells[c]? = some text ∧
          CellSpec x text := by
  refine ⟨_, text_eq sound.cells_size, splitOn_text sound, by simp, fun r row => ?_⟩
  refine ⟨((List.range m.shape.columns).map (m.entry r)).map cellText, ?_, by simp, ?_⟩
  · rw [List.getElem?_map, List.getElem?_range row]
    rfl
  · intro c column
    refine ⟨m.entry r c, _, Complete.get?_eq sound.cells_size row column, ?_,
      cellSpec_cellText (m.entry r c)⟩
    rw [List.getElem?_map, List.getElem?_map, List.getElem?_range column]
    rfl

/-- A number that rounds to zero has the digits of the negative zero, and one column less. -/
theorem text_grid_zeros :
    (⟨⟨1, 2⟩, #[-0.001, -0.0]⟩ : Mat Float).WellFormed ∧
      ∃ lines : List String, lines.length = 1 ∧
        (⟨⟨1, 2⟩, #[-0.001, -0.0]⟩ : Mat Float).text = String.intercalate "\n" lines ∧
        ∃ cells : List String,
          lines[0]? = some ("|" ++ String.intercalate ", " cells ++ "|") ∧
          cells[0]? = some "-0.00" ∧ cells[1]? = some " -0.00" := by
  have sound : (⟨⟨1, 2⟩, #[-0.001, -0.0]⟩ : Mat Float).WellFormed :=
    ⟨Nat.one_pos, Nat.two_pos, rfl⟩
  obtain ⟨lines, joined, -, rows, each⟩ := text_grid sound
  obtain ⟨cells, line, -, entries⟩ := each 0 Nat.one_pos
  refine ⟨sound, lines, rows, joined, cells, line, ?_, ?_⟩
  · obtain ⟨x, text, entry, found, spec⟩ := entries 0 Nat.two_pos
    cases entry
    rw [found, spec.negative (by decide +kernel)]
    decide +kernel
  · obtain ⟨x, text, entry, found, spec⟩ := entries 1 Nat.one_lt_two
    cases entry
    rw [found, spec.negativeZero rfl]

/-- The negative zero has a space and a minus sign, and NaN has neither. -/
theorem misaligned :
    (program .preloaded "print(mat<1,2>(-0, 0/0));").printed.map Value.text = ["| -0.00, NaN|"] ∧
      ¬SignColumn (-0.0) " -0.00" ∧ ¬SignColumn (0.0 / 0.0) "NaN" := by
  have zero : cellText (-0.0) = " -0.00" := cellText_negativeZero rfl
  have nan : cellText (0.0 / 0.0) = "NaN" := cellText_nan rfl
  rw [← zero, ← nan, signColumn_iff, signColumn_iff]
  refine ⟨by decide +kernel, ?_, ?_⟩
  · rintro ⟨other, -⟩
    exact other rfl
  · rintro ⟨-, ordered⟩
    exact ordered rfl

end PolyCalc.Mat
