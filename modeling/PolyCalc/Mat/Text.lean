import PolyCalc.Mat

/-!
The text of a matrix over binary64 numbers: a line for each row, between bars,
with cells of two decimals. A cell that is not negative has a space in front, so
that signs line up.
-/

namespace PolyCalc.Mat

def cellText (x : Float) : String :=
  (if 0.0 ≤ x then " " else "") ++ Number.fixed 2 x

def rowText (cells : List Float) : String :=
  "|" ++ String.intercalate ", " (cells.map cellText) ++ "|"

/-- The lines of the text, one for each row. -/
def lines (m : Mat Float) : Except Fault (List String) :=
  (List.range m.shape.rows).mapM fun r => do return rowText (← m.row r)

/-- The text of a matrix whose rows are all there. -/
def text (m : Mat Float) : String :=
  match m.lines with
  | .ok rows => String.intercalate "\n" rows
  | .error _ => ""

end PolyCalc.Mat
