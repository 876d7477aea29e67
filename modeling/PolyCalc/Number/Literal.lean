/-!
Reading numbers from text.

A literal is a run of digits, optionally followed by a point and a second run.
It is read as the number nearest to its value; values past the range become
infinite. The words for infinity and for no number are read too, in any case of
letters.
-/

namespace PolyCalc.Number

/-- The value of a run of decimal digits. -/
def digitsValue (digits : List Char) : Nat :=
  digits.foldl (fun value c => 10 * value + (c.toNat - '0'.toNat)) 0

/-- The number written as `digits` or `digits.digits`. -/
def readDecimal? (cs : List Char) : Option Float :=
  let whole := cs.takeWhile Char.isDigit
  if whole.isEmpty then none
  else match cs.dropWhile Char.isDigit with
    | [] => some (.ofScientific (digitsValue whole) false 0)
    | '.' :: fraction =>
        if fraction.isEmpty || !fraction.all Char.isDigit then none
        else some (.ofScientific (digitsValue (whole ++ fraction)) true fraction.length)
    | _ => none

/-- The number written as a word. -/
def readWord? (cs : List Char) : Option Float :=
  match String.ofList (cs.map Char.toLower) with
  | "inf" | "infinity" => some (1.0 / 0.0)
  | "nan" => some (0.0 / 0.0)
  | _ => none

/-- The number that a text stands for, if it is one. -/
def read? (text : String) : Option Float :=
  readDecimal? text.toList <|> readWord? text.toList

end PolyCalc.Number
