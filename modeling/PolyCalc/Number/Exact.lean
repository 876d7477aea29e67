/-!
Exact arithmetic on binary64 numbers.

A finite number is a sign and a whole mantissa times a power of two
(`unpack`). The operations here compute on these parts without rounding and
round once at the end (`nearest`), so each of them is the real operation
followed by one rounding to the nearest number, halves to the even neighbour:

* `mulAdd a b c` is `a * b + c` with one rounding;
* `remainder a b` is `a - b * n` for the whole `n` that leaves the sign of `a`
  and a magnitude below that of `b`;
* `floor`, `ceiling`, `round` and `truncate` are the four ways to a whole
  number. Results that are zero keep the sign of the argument.
-/

namespace PolyCalc.Number

open Float.Model (Format UnpackedFloat)
open Float.Model.UnpackedFloat (Sign)

/-- The sign, mantissa and exponent of a number. -/
def unpack (x : Float) : UnpackedFloat := x.toModel.unpack

/-- The number with the given parts, which must fit the format. -/
def pack (u : UnpackedFloat) : Float := .ofModel (.pack u)

/-- The number nearest to `± mantissa * 2 ^ exponent`, halves to the even
neighbour. -/
def nearest (sign : Sign) (mantissa : Nat) (exponent : Int) : Float :=
  pack (.round .binary64 sign mantissa exponent)

/-! ### Fused multiplication and addition -/

/-- The product of two numbers before any rounding. -/
def exactProduct : UnpackedFloat → UnpackedFloat → UnpackedFloat
  | .finite s₁ m₁ e₁ pos₁, .finite s₂ m₂ e₂ pos₂ =>
      .finite (s₁ * s₂) (m₁ * m₂) (e₁ + e₂) (Nat.mul_pos pos₁ pos₂)
  | u, v => .mul .binary64 u v

/-- `a * b + c` with a single rounding. -/
def mulAdd (a b c : Float) : Float :=
  match exactProduct (unpack a) (unpack b), unpack c with
  | .finite s m e _, .zero _ => nearest s m e
  | product, addend => pack (.add .binary64 product addend)

/-! ### Remainder -/

/-- The remainder of `a` by `b`: exact, with the sign of `a`. There is none for
an infinite `a` or a zero `b`; an infinite `b` leaves `a` as it is. -/
def remainder (a b : Float) : Float :=
  match unpack a, unpack b with
  | .finite s m e _, .finite _ n f _ =>
      let unit := min e f
      nearest s ((m <<< (e - unit).toNat) % (n <<< (f - unit).toNat)) unit
  | .finite .., .infinity _ | .zero _, .infinity _ | .zero _, .finite .. => a
  | _, _ => pack .notANumber

/-! ### Whole numbers -/

/-- How a magnitude between two whole numbers is settled. -/
inductive Toward where
  | zero
  | below
  | above
  | nearestAwayFromZero
deriving DecidableEq, Repr

/-- The whole magnitude next to `quotient + remainder / unit`, where
`remainder < unit`. -/
def Toward.settle (toward : Toward) (sign : Sign) (quotient remainder unit : Nat) : Nat :=
  let up : Bool :=
    match toward, sign with
    | .zero, _ => false
    | .below, .positive | .above, .negative => false
    | .below, .negative | .above, .positive => remainder != 0
    | .nearestAwayFromZero, _ => unit ≤ 2 * remainder
  if up then quotient + 1 else quotient

/-- The whole number next to `x` on the chosen side. Numbers without fractional
bits, zeros, infinities and NaN are left as they are. -/
def whole (toward : Toward) (x : Float) : Float :=
  match unpack x with
  | .finite s m (.negSucc k) _ =>
      let unit := Nat.pow 2 (k + 1)
      nearest s (toward.settle s (m / unit) (m % unit) unit) 0
  | _ => x

def floor : Float → Float := whole .below

def ceiling : Float → Float := whole .above

def round : Float → Float := whole .nearestAwayFromZero

def truncate : Float → Float := whole .zero

/-- `x` rounded to the given number of decimals, halves away from zero. A
negative count of decimals rounds to tens, hundreds and so on. A result of zero
is the positive one. -/
def roundToDecimals (x : Float) (decimals : Int) : Float :=
  let scale : Float :=
    match decimals with
    | .ofNat d => .ofScientific 1 false d
    | .negSucc d => 1.0 / .ofScientific 1 false (d + 1)
  let rounded := round (x * scale) / scale
  if rounded == 0.0 then 0.0 else rounded

end PolyCalc.Number
