import PolyCalc.Mat.Text
import PolyCalc.Poly.Text

/-!
The values of the language: numbers, matrices, polynomial functions, and things
that can be called. Programs compute with values over binary64 numbers; the
arithmetic on values works over any scalars.

Equality (`==`) compares numbers as binary64 does, so NaN differs from itself
and the two zeros are equal.
-/

namespace PolyCalc

/-! ### Native operations -/

/-- The operations every program starts with. -/
inductive Native where
  | print
  | derive
  | integrate
  | fact
  | binomial
  | sin
  | cos
  | tan
  | pow
  | sqrt
  | floor
  | ceiling
  | round
deriving DecidableEq, Repr

namespace Native

def name : Native → String
  | print => "print"
  | derive => "derive"
  | integrate => "integrate"
  | fact => "fact"
  | binomial => "binomial"
  | sin => "sin"
  | cos => "cos"
  | tan => "tan"
  | pow => "pow"
  | sqrt => "sqrt"
  | floor => "floor"
  | ceiling => "ceiling"
  | round => "round"

def arity : Native → Arity
  | print => .atLeast 1
  | binomial | pow => .exactly 2
  | _ => .exactly 1

/-- The operations with output. -/
def output : List Native := [print]

/-- The operations on numbers, polynomials and matrices. -/
def algebra : List Native :=
  [derive, integrate, fact, binomial, sin, cos, tan, pow, sqrt, floor, ceiling, round]

end Native

/-! ### Constructors -/

/-- What a constructor builds: matrices of any shape, or single columns. -/
inductive Family where
  | matrix
  | vector
deriving DecidableEq, Repr

namespace Family

def name : Family → String
  | matrix => "mat"
  | vector => "vec"

/-- How many dimensions are given. -/
def dimensionCount : Family → Nat
  | matrix => 2
  | vector => 1

/-- A call as it should look. -/
def usage : Family → String
  | matrix => "mat<2,2>(...)"
  | vector => "vec<3>(...)"

end Family

/-- A constructor of matrices. It is given its dimensions first and the cells in
a second step. -/
structure Constructor where
  family : Family
  dimensions : Option Shape
deriving DecidableEq, Repr

/-- The constructor before it is given dimensions. -/
def Constructor.unbound (family : Family) : Constructor := ⟨family, none⟩

def Constructor.text (c : Constructor) : String :=
  match c.dimensions, c.family with
  | none, family => family.name
  | some shape, .matrix => shape.text
  | some shape, .vector => s!"vec<{shape.rows}>"

/-! ### Callables and values -/

/-- What can be called with arguments. -/
inductive Callable (α : Type) where
  | native (operation : Native)
  | polynomial (p : Poly α)
  | constructor (c : Constructor)
deriving BEq, Repr

inductive Value (α : Type) where
  | number (x : α)
  | matrix (m : Mat α)
  | function (p : Poly α)
  | callable (c : Callable α)
deriving BEq, Repr

/-- The name in reports about a call. -/
def Callable.name {α : Type} : Callable α → String
  | native operation => operation.name
  | polynomial _ => "function"
  | constructor c => c.text

def Callable.text : Callable Float → String
  | native operation => s!"<builtin {operation.name}>"
  | polynomial p => p.text
  | constructor c => s!"<{c.text}>"

namespace Value

variable {α : Type}

def type : Value α → ValueType
  | number _ => .number
  | matrix _ => .matrix
  | function _ => .function
  | callable _ => .callable

/-- The number that the value is. -/
def asNumber : Value α → Except Fault α
  | number x => .ok x
  | v => .error (.typeError (.notNumber v.type))

/-- What a call of the value calls. Polynomial functions can be called as well
as callables. -/
def asCallable? : Value α → Option (Callable α)
  | callable c => some c
  | function p => some (.polynomial p)
  | _ => none

def text : Value Float → String
  | number x => Number.text x
  | matrix m => m.text
  | function p => p.text
  | callable c => c.text

end Value

end PolyCalc
