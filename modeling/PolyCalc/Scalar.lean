import PolyCalc.Number.Count

/-!
The scalars of polynomials and matrices.

`Scalar` lists the operations that arithmetic on values uses and
assumes no law about them, so the same definitions compute with binary64
numbers, where hardly any law holds, and with the elements of a ring or field.
Two operations are there because binary64 tells them apart from simpler ones:
sums of products start from `seed`, which is the negative zero, and `mulAdd`
rounds once.
-/

namespace PolyCalc

/-- The operations of arithmetic on values. -/
class Scalar (α : Type) extends
    Zero α, One α, Add α, Sub α, Mul α, Div α, Mod α, Neg α, NatCast α where
  /-- What a sum of products starts from. -/
  seed : α
  /-- `mulAdd a b c` is `a * b + c`. -/
  mulAdd : α → α → α → α

/-- Binary64 numbers. The negative zero leaves every number as it is when it is
added, which makes it the start of a sum. -/
instance : Scalar Float where
  zero := 0.0
  one := 1.0
  mod := Number.remainder
  natCast := Number.ofCount
  seed := -0.0
  mulAdd := Number.mulAdd

end PolyCalc
