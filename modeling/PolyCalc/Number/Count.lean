import PolyCalc.Number.Exact

/-!
Counts inside numbers.

Dimensions, exponents and powers are written as numbers and used as counts. A
number is a count if it is finite, not negative, not above `2 ^ 53 - 1` and has
nothing after its point. Up to that bound all whole numbers are numbers
themselves.
-/

namespace PolyCalc.Number

/-- The largest number that is taken as a count, `2 ^ 53 - 1`. -/
def maxCount : Float := 9007199254740991.0

/-- What stands after the point of a number. -/
def fraction (x : Float) : Float := x - truncate x

/-- The count that `x` stands for, if any. Both zeros stand for 0. -/
def toCount? (x : Float) : Option Nat :=
  if !x.isFinite || x < 0.0 || x > maxCount || fraction x != 0.0 then none
  else some x.toUInt64.toNat

/-- The number nearest to a count, halves to the even neighbour. -/
def ofCount (n : Nat) : Float := nearest .positive n 0

end PolyCalc.Number
