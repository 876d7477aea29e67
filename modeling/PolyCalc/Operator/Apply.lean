import PolyCalc.Operator
import PolyCalc.Value

/-!
The binary operators on values.

Two numbers are combined as scalars. Otherwise the left operand decides: a
number scales a matrix or a polynomial to its right; matrices add, subtract and
multiply, and are multiplied or divided by numbers; polynomials add, subtract
and multiply, with numbers too, and are divided by numbers.
-/

namespace PolyCalc.Operator

variable {α : Type} [Scalar α]

/-- The operator on two scalars. -/
def onScalars : Operator → α → α → α
  | add, a, b => a + b
  | subtract, a, b => a - b
  | multiply, a, b => a * b
  | divide, a, b => a / b
  | modulo, a, b => a % b

/-- The operator on two values. -/
def apply (op : Operator) (lhs rhs : Value α) : Except Fault (Value α) :=
  match op, lhs, rhs with
  | op, .number a, .number b => .ok (.number (op.onScalars a b))
  | multiply, .number a, .matrix m => .ok (.matrix (m.scale a))
  | multiply, .number a, .function p => .ok (.function (p.scale a))
  | add, .matrix a, .matrix b => .matrix <$> a.add b
  | subtract, .matrix a, .matrix b => .matrix <$> a.sub b
  | multiply, .matrix a, .matrix b => .matrix <$> a.mul b
  | multiply, .matrix m, .number x => .ok (.matrix (m.scale x))
  | divide, .matrix m, .number x => .ok (.matrix (m.map (· / x)))
  | add, .function p, .function q => .ok (.function (p.add q))
  | subtract, .function p, .function q => .ok (.function (p.sub q))
  | multiply, .function p, .function q => .function <$> p.mul q
  | add, .function p, .number x => .function <$> p.addConstant x
  | subtract, .function p, .number x => .function <$> p.addConstant (-x)
  | multiply, .function p, .number x => .ok (.function (p.scale x))
  | divide, .function p, .number x => .ok (.function (p.scale (1 / x)))
  | op, lhs, rhs => .error (.typeError (.operands op lhs.type rhs.type))

end PolyCalc.Operator
