import PolyCalc.Poly

/-!
The text of a polynomial over binary64 numbers, such as `f(x)=+3x^2-2x+1`.

Terms run from the highest power down. Zero terms are left out, every term
carries its sign, and a magnitude of one is written for the constant term only.
Whole magnitudes are written in full, others with at most two decimals.
-/

namespace PolyCalc

/-- `s` without the characters `c` at its end. -/
def dropEnding (c : Char) (s : String) : String :=
  String.ofList (s.toList.reverse.dropWhile (· == c)).reverse

namespace Poly

/-- The magnitude of a coefficient. -/
def magnitudeText (x : Float) : String :=
  if Number.truncate x == x then Number.text x
  else dropEnding '.' (dropEnding '0' (Number.fixed 2 x))

/-- The power of the variable; none for the constant term. -/
def powerText : Nat → String
  | 0 => ""
  | 1 => "x"
  | power => s!"x^{power}"

/-- One term with its sign. -/
def termText (coefficient : Float) (power : Nat) : String :=
  let sign := if coefficient < 0.0 then "-" else "+"
  let magnitude := coefficient.abs
  let factor := if magnitude != 1.0 || power == 0 then magnitudeText magnitude else ""
  sign ++ factor ++ powerText power

def text (p : Poly Float) : String :=
  let terms := p.coefficients.zipIdx.reverse.filter fun (c, _) => c != 0.0
  "f(x)=" ++
    if terms.isEmpty then "0"
    else String.join (terms.map fun (c, power) => termText c power)

end Poly

end PolyCalc
