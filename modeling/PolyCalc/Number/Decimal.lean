import PolyCalc.Number.Exact

/-!
Decimal texts of numbers.

Two forms are written. The shortest form (`text`) has the fewest digits that
still lie among the reals rounding to the number, and of these the digits
nearest to it; it is written in full, never with an exponent. The fixed form
(`fixed`) has a given count of places and rounds the exact value, halves to the
even digit. Both keep the sign of zero.
-/

namespace PolyCalc.Number

open Float.Model.UnpackedFloat (Sign)

/-- A decimal with the value `digits * 10 ^ place`. -/
structure Decimal where
  digits : Nat
  place : Int
deriving DecidableEq, Repr

/-! ### Positional texts -/

/-- `text` after enough zeros to reach `width` characters. -/
def padded (width : Nat) (text : String) : String :=
  String.ofList (List.replicate (width - text.length) '0') ++ text

/-- `units` written with a point before its last `places` digits. -/
def pointed (units places : Nat) : String :=
  let one := Nat.pow 10 places
  toString (units / one) ++ "." ++ padded places (toString (units % one))

/-- The decimal in full, without an exponent. -/
def Decimal.text (d : Decimal) : String :=
  match d.place with
  | .ofNat zeros => toString d.digits ++ String.ofList (List.replicate zeros '0')
  | .negSucc places => pointed d.digits (places + 1)

/-! ### The shortest decimal -/

/-- The reals that round to `mantissa * 2 ^ exponent`, measured in quarters of
`2 ^ exponent`. Below a power of two the numbers lie twice as close. The ends
belong to the span if the mantissa is even. -/
structure Span where
  lower : Nat
  upper : Nat
  closed : Bool
deriving DecidableEq, Repr

def spanOf (mantissa : Nat) (exponent : Int) : Span where
  lower := if mantissa = Nat.pow 2 52 ∧ exponent ≠ -1074 then 4 * mantissa - 1 else 4 * mantissa - 2
  upper := 4 * mantissa + 2
  closed := mantissa % 2 = 0

/-- Whether `candidate / units` lies in the span, where `units` is the pair of
a numerator and a denominator. -/
def Span.holds (s : Span) (units : Nat × Nat) (candidate : Nat) : Bool :=
  let c := candidate * units.2
  if s.closed then s.lower * units.1 ≤ c && c ≤ s.upper * units.1
  else s.lower * units.1 < c && c < s.upper * units.1

/-- A quarter of `2 ^ exponent` counted in units of `10 ^ place`, as a
fraction. -/
def quarterIn (exponent place : Int) : Nat × Nat :=
  (Nat.pow 2 (exponent - 2).toNat * Nat.pow 10 (-place).toNat,
    Nat.pow 2 (2 - exponent).toNat * Nat.pow 10 place.toNat)

/-- The multiple of `10 ^ place` nearest to `mantissa * 2 ^ exponent` among its
two neighbours, if one of them rounds to that number. -/
def onGrid? (mantissa : Nat) (exponent place : Int) : Option Nat :=
  let span := spanOf mantissa exponent
  let units := quarterIn exponent place
  let value := 4 * mantissa * units.1
  let below := value / units.2
  match span.holds units below, span.holds units (below + 1) with
  | true, true => some (if 2 * value < (2 * below + 1) * units.2 then below else below + 1)
  | true, false => some below
  | false, true => some (below + 1)
  | false, false => none

/-- The first hit on ever finer grids, from `10 ^ place` down. -/
def firstOnGrid (mantissa : Nat) (exponent : Int) : Nat → Int → Decimal
  | 0, place =>
      let units := quarterIn exponent place
      ⟨4 * mantissa * units.1 / units.2, place⟩
  | finer + 1, place =>
      match onGrid? mantissa exponent place with
      | some digits => ⟨digits, place⟩
      | none => firstOnGrid mantissa exponent finer (place - 1)

/-- A place whose unit is above `mantissa * 2 ^ exponent`, from
`log 2 < 30103 / 100000` to base ten. -/
def topPlace (mantissa : Nat) (exponent : Int) : Int :=
  (mantissa.log2 + 1 + exponent) * 30103 / 100000 + 1

/-- The shortest decimal for `mantissa * 2 ^ exponent`. Seventeen digits always
suffice, so the search is over before its twenty grids are. -/
def shortest (mantissa : Nat) (exponent : Int) : Decimal :=
  firstOnGrid mantissa exponent 20 (topPlace mantissa exponent)

/-! ### Texts -/

/-- The mark before a magnitude. -/
def signMark : Sign → String
  | .negative => "-"
  | .positive => ""

/-- The shortest text of a number. -/
def text (x : Float) : String :=
  match unpack x with
  | .notANumber => "NaN"
  | .infinity s => signMark s ++ "inf"
  | .zero s => signMark s ++ "0"
  | .finite s m e _ => signMark s ++ (shortest m e).text

/-- The whole number nearest to `n / d`, halves to the even neighbour. -/
def divHalfEven (n d : Nat) : Nat :=
  let q := n / d
  let r := n % d
  if 2 * r < d then q else if d < 2 * r then q + 1 else q + q % 2

/-- `mantissa * 2 ^ exponent` in units of the last of `places` decimals. -/
def roundedUnits (places mantissa : Nat) : Int → Nat
  | .ofNat k => mantissa * Nat.pow 10 places * Nat.pow 2 k
  | .negSucc k => divHalfEven (mantissa * Nat.pow 10 places) (Nat.pow 2 (k + 1))

/-- The text of a number with a fixed, positive count of places. -/
def fixed (places : Nat) (x : Float) : String :=
  match unpack x with
  | .notANumber => "NaN"
  | .infinity s => signMark s ++ "inf"
  | .zero s => signMark s ++ pointed 0 places
  | .finite s m e _ => signMark s ++ pointed (roundedUnits places m e) places

end PolyCalc.Number
