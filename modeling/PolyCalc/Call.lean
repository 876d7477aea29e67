import PolyCalc.Value

/-!
Calls.

A call first checks the number of its arguments and then their types, each
argument where it is used. Printing is the only effect: the answer of a call
holds the values it prints beside its result.
-/

namespace PolyCalc

/-- The outcome of a call: what it prints, in order, and its value. -/
structure Answer where
  printed : List (Value Float)
  value : Value Float

namespace Native

/-! ### Numbers -/

def pi : Float := 3.141592653589793

def e : Float := 2.718281828459045

/-- Multiplies `result` by `n`, `n - 1` and so on, for as long as the factor is
above one and the product is finite, but not more often than `steps` times. -/
def factorialFrom : Nat → Float → Float → Float
  | 0, _, result => result
  | steps + 1, n, result =>
      if 1.0 < n && result.isFinite then factorialFrom steps (n - 1.0) (result * n)
      else result

/-- The factorial. A product of factors above one leaves the range of numbers
long before its 1025th factor, so the count of steps cuts nothing off. -/
def factorial (n : Float) : Float := factorialFrom 1025 n 1.0

/-- Decimals kept of the result of a trigonometric function. -/
def trigDecimals : Int := 10

/-- A trigonometric function of an angle in degrees. -/
def ofDegrees (f : Float → Float) (degrees : Float) : Float :=
  Number.roundToDecimals (f (degrees * (pi / 180.0))) trigDecimals

/-! ### Operations on values -/

/-- The functions that act on every cell of a matrix. -/
def cellwise? : String → Option (Float → Float)
  | "sqrt" => some Float.sqrt
  | "floor" => some Number.floor
  | "ceiling" => some Number.ceiling
  | "round" => some Number.round
  | _ => none

/-- Applies the named function to a number or to every cell of a matrix. -/
def applyCellwise (name : String) (args : List (Value Float)) : Except Fault (Value Float) :=
  match cellwise? name with
  | none => .error (.invalidArgument (.unknownOperation name))
  | some f => do
      match ← entryAt args 0 with
      | .number x => return .number (f x)
      | .matrix m => return .matrix (m.map f)
      | v => .error (.typeError (.notDefinedFor name v.type))

/-- The count an exponent stands for. -/
def wholeExponent (x : Float) : Except Fault Nat :=
  match Number.toCount? x with
  | some n => .ok n
  | none => .error (.invalidArgument (.exponent x))

/-- A base to the power of an exponent. Matrices and polynomials take whole
exponents. -/
def raise (base : Value Float) (exponent : Float) : Except Fault (Value Float) :=
  match base with
  | .number x => return .number (x.pow exponent)
  | .matrix m => do return .matrix (← m.pow (← wholeExponent exponent))
  | .function p => do return .function (← p.pow (← wholeExponent exponent))
  | .callable _ => .error (.typeError (.notDefinedFor "pow" .callable))

/-- The derivative of a polynomial. -/
def deriveOf (args : List (Value Float)) : Except Fault (Value Float) := do
  match ← entryAt args 0 with
  | .function p => return .function p.derive
  | v => .error (.typeError (.notDefinedFor "derive" v.type))

/-- The antiderivative of a polynomial. -/
def integrateOf (args : List (Value Float)) : Except Fault (Value Float) := do
  match ← entryAt args 0 with
  | .function p => return .function (← p.integrate)
  | v => .error (.typeError (.notDefinedFor "integrate" v.type))

/-- A function of one number. -/
def numberOf (f : Float → Float) (args : List (Value Float)) : Except Fault (Value Float) := do
  return .number (f (← (← entryAt args 0).asNumber))

/-- The binomial coefficient, by factorials. -/
def binomialOf (args : List (Value Float)) : Except Fault (Value Float) := do
  let n ← (← entryAt args 0).asNumber
  let k ← (← entryAt args 1).asNumber
  return .number (factorial n / (factorial k * factorial (n - k)))

/-- The power of the first argument by the second, which is looked at first. -/
def powOf (args : List (Value Float)) : Except Fault (Value Float) := do
  let exponent ← (← entryAt args 1).asNumber
  raise (← entryAt args 0) exponent

/-! ### Calls -/

/-- Prints all arguments; the last one is the value. -/
def printAll (args : List (Value Float)) : Except Fault Answer :=
  match args.getLast? with
  | some last => .ok ⟨args, last⟩
  | none => .error (.argumentCount print.name print.arity 0)

/-- The answer of an operation that prints nothing. -/
def silently (result : Except Fault (Value Float)) : Except Fault Answer := do
  return ⟨[], ← result⟩

/-- An operation on its arguments, whose number is not checked. -/
def call (operation : Native) (args : List (Value Float)) : Except Fault Answer :=
  match operation with
  | print => printAll args
  | derive => silently (deriveOf args)
  | integrate => silently (integrateOf args)
  | fact => silently (numberOf factorial args)
  | binomial => silently (binomialOf args)
  | sin => silently (numberOf (ofDegrees Float.sin) args)
  | cos => silently (numberOf (ofDegrees Float.cos) args)
  | tan => silently (numberOf (ofDegrees Float.tan) args)
  | pow => silently (powOf args)
  | sqrt => silently (applyCellwise "sqrt" args)
  | floor => silently (applyCellwise "floor" args)
  | ceiling => silently (applyCellwise "ceiling" args)
  | round => silently (applyCellwise "round" args)

end Native

/-! ### Constructors -/

namespace Constructor

/-- The dimension that a number stands for: a positive count. -/
def dimension (x : Float) : Except Fault Nat :=
  match Number.toCount? x with
  | some (n + 1) => .ok (n + 1)
  | _ => .error (.invalidDimensions (.notPositive x))

/-- The constructor with the given dimensions. -/
def bind (c : Constructor) (generics : List Float) : Except Fault Constructor :=
  if c.dimensions.isSome then .error (.invalidDimensions (.alreadyGiven c.family.name))
  else if generics.length ≠ c.family.dimensionCount then
    .error (.invalidDimensions
      (.count c.family.name c.family.dimensionCount generics.length))
  else do
    let rows ← dimension (← entryAt generics 0)
    let columns ← match c.family with
      | .matrix => dimension (← entryAt generics 1)
      | .vector => pure 1
    let shape : Shape := ⟨rows, columns⟩
    if cellLimit ≤ shape.size then .error (.invalidDimensions (.tooLarge shape))
    else return { c with dimensions := some shape }

/-- The matrix with the given cells. -/
def construct (c : Constructor) (args : List (Value Float)) : Except Fault (Value Float) :=
  match c.dimensions with
  | none => .error (.invalidDimensions (.missing c.family.name c.family.usage))
  | some shape =>
      if args.length ≠ shape.size then
        .error (.argumentCount c.text (.exactly shape.size) args.length)
      else do
        let cells ← args.mapM Value.asNumber
        return .matrix (← Mat.ofCells shape cells)

end Constructor

/-! ### Callables -/

namespace Callable

/-- Takes generic arguments, such as the `2,3` of `mat<2,3>`. -/
def specialize (c : Callable Float) (generics : List Float) : Except Fault (Callable Float) :=
  match c with
  | constructor k => do return .constructor (← k.bind generics)
  | other => .error (.invalidDimensions (.notGeneric other.name))

/-- Calls with the given arguments. -/
def invoke (c : Callable Float) (args : List (Value Float)) : Except Fault Answer :=
  match c with
  | native operation =>
      if operation.arity.accepts args.length then operation.call args
      else .error (.argumentCount operation.name operation.arity args.length)
  | polynomial p =>
      if args.length ≠ 1 then .error (.argumentCount c.name (.exactly 1) args.length)
      else Native.silently (Native.numberOf p.eval args)
  | constructor k => Native.silently (k.construct args)

end Callable

end PolyCalc
