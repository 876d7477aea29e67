import PolyCalc.Arity
import PolyCalc.Number.Decimal
import PolyCalc.Token

/-!
What can go wrong, and how it is reported.

A `Fault` is a cause: it says what is wrong and not where. Operations on values
answer with faults. A `Failure` is a fault with the line it is reported on; the
evaluator makes one from a fault and the line of the token in charge. The
wording of every report is in `Fault.text` and nowhere else.
-/

namespace PolyCalc

/-! ### Limits -/

/-- The highest degree a polynomial may reach. -/
def maxDegree : Nat := 1024

/-- A matrix has fewer cells than this. -/
def cellLimit : Nat := Nat.pow 2 64

/-! ### Shapes -/

/-- The rows and columns of a matrix. -/
structure Shape where
  rows : Nat
  columns : Nat
deriving DecidableEq, Repr

/-- The number of cells of a shape. -/
def Shape.size (s : Shape) : Nat := s.rows * s.columns

/-- A shape as a size, such as `2x3`. -/
def Shape.extent (s : Shape) : String := s!"{s.rows}x{s.columns}"

/-- A shape as a type, such as `mat<2,3>`. -/
def Shape.text (s : Shape) : String := s!"mat<{s.rows},{s.columns}>"

/-! ### Types of values -/

inductive ValueType where
  | number
  | matrix
  | function
  | callable
deriving DecidableEq, Repr

def ValueType.text : ValueType → String
  | number => "number"
  | matrix => "matrix"
  | function => "function"
  | callable => "callable"

/-! ### Causes -/

/-- What the grammar wants where it meets something else. -/
inductive Expected where
  | operand
  | number
  | identifier
  | exactly (token : Token)
  | separatorOr (closing : Token)
deriving DecidableEq, Repr

def Expected.text : Expected → String
  | .operand => "a number, an identifier or \"(\""
  | .number => "a number"
  | .identifier => "an identifier"
  | .exactly token => s!"\"{token.text}\""
  | .separatorOr closing => s!"\",\" or \"{closing.text}\""

/-- Shapes that do not go together. -/
inductive Mismatch where
  | cellCount (shape : Shape) (found : Nat)
  | cellwise (verb : String) (left right : Shape)
  | product (left right : Shape)
  | notSquare (shape : Shape)
deriving DecidableEq, Repr

def Mismatch.text : Mismatch → String
  | .cellCount shape found =>
      s!"can not initialize a {shape.extent} matrix with {found} values"
  | .cellwise verb left right => s!"can not {verb} a {left.text} and a {right.text}"
  | .product left right => s!"you can not multiply a {left.text} with a {right.text}"
  | .notSquare shape =>
      s!"only square matrices can be raised to a power, found {shape.text}"

/-- Dimensions that describe no matrix. -/
inductive BadDimensions where
  | empty (shape : Shape)
  | tooLarge (shape : Shape)
  | alreadyGiven (name : String)
  | count (name : String) (expected found : Nat)
  | notPositive (found : Float)
  | notGeneric (name : String)
  | missing (name usage : String)
deriving DecidableEq, Repr

def BadDimensions.text : BadDimensions → String
  | .empty shape =>
      s!"a matrix needs at least one row and one column, found {shape.extent}"
  | .tooLarge shape => s!"a {shape.extent} matrix is too large"
  | .alreadyGiven name => s!"\"{name}\" already has dimensions"
  | .count name expected found => s!"\"{name}\" takes {expected} dimension(s), found {found}"
  | .notPositive found => s!"\"{Number.text found}\" is not a positive whole number"
  | .notGeneric name => s!"\"{name}\" takes no generic arguments"
  | .missing name usage => s!"\"{name}\" needs dimensions, e.g. {usage}"

/-- A value of a type that the operation does not take. -/
inductive TypeClash where
  | notNumber (found : ValueType)
  | notDefinedFor (operation : String) (found : ValueType)
  | operands (op : Operator) (left right : ValueType)
deriving DecidableEq, Repr

def TypeClash.text : TypeClash → String
  | .notNumber found => s!"expected a number, found a {found.text}"
  | .notDefinedFor operation found => s!"\"{operation}\" is not defined for a {found.text}"
  | .operands op left right =>
      s!"operator \"{op.symbol}\" is not defined between a {left.text} and a {right.text}"

/-- An argument of the right type with a value the operation does not take. -/
inductive BadArgument where
  | exponent (found : Float)
  | unknownOperation (name : String)
deriving DecidableEq, Repr

def BadArgument.text : BadArgument → String
  | .exponent found => s!"exponent {Number.text found} is not a whole, non-negative number"
  | .unknownOperation name => s!"unknown operation \"{name}\""

/-- Everything that can stop an evaluation. `outOfRange` answers an access past
the end of a list or a grid. -/
inductive Fault where
  | unexpectedCharacter (found : Char) (column : Nat)
  | unexpectedToken (found : Token) (expected : Expected)
  | malformedNumber (literal : String)
  | undefinedName (name : String)
  | unboundName (name : String)
  | redefinedName (name : String)
  | notCallable (name : String)
  | notCaptured (name : String)
  | mixedVariables (expected found : String)
  | invalidExponent (found : Float)
  | degreeLimit (degree : Nat)
  | dimensionMismatch (cause : Mismatch)
  | invalidDimensions (cause : BadDimensions)
  | argumentCount (name : String) (expected : Arity) (found : Nat)
  | typeError (cause : TypeClash)
  | invalidArgument (cause : BadArgument)
  | outOfRange
deriving DecidableEq, Repr

/-- The report of a fault, without its line. -/
def Fault.text : Fault → String
  | .unexpectedCharacter found column => s!"Unexpected character '{found}' at column {column}"
  | .unexpectedToken found expected =>
      s!"Unexpected token \"{found.text}\", expected {expected.text}"
  | .malformedNumber literal => s!"Scanned value \"{literal}\" is not a number"
  | .undefinedName name => s!"\"{name}\" is not defined."
  | .unboundName name => s!"\"{name}\" is declared but has no value."
  | .redefinedName name => s!"Redefinition of variable \"{name}\"."
  | .notCallable name => s!"\"{name}\" is not callable."
  | .notCaptured name => s!"Variable \"{name}\" is not captured."
  | .mixedVariables expected found =>
      s!"Polynomial in \"{expected}\" cannot use \"{found}\" as a variable."
  | .invalidExponent found =>
      s!"The minimum degree for polynomials is 0 and degrees must be whole, found {Number.text found}."
  | .degreeLimit degree => s!"Polynomials are limited to degree {maxDegree}, found {degree}."
  | .dimensionMismatch cause => s!"Dimension mismatch: {cause.text}."
  | .invalidDimensions cause => s!"Invalid dimensions: {cause.text}."
  | .argumentCount name expected found =>
      s!"\"{name}\" expects {expected.text} argument(s) but received {found}."
  | .typeError cause => s!"Type error: {cause.text}."
  | .invalidArgument cause => s!"Invalid argument: {cause.text}."
  | .outOfRange => "Access out of range."

/-! ### Kinds and failures -/

/-- The families that reports name. -/
inductive Kind where
  | lexical
  | grammar
  | name
  | capture
  | domain
  | internal
deriving DecidableEq, Repr

def Kind.text : Kind → String
  | .lexical => "LexicalError"
  | .grammar => "SyntaxError"
  | .name => "NameError"
  | .capture => "CaptureError"
  | .domain => "DomainError"
  | .internal => "InternalError"

def Fault.kind : Fault → Kind
  | .unexpectedCharacter .. => .lexical
  | .unexpectedToken .. => .grammar
  | .undefinedName _ | .unboundName _ | .redefinedName _ | .notCallable _ => .name
  | .notCaptured _ | .mixedVariables .. => .capture
  | .invalidExponent _ | .degreeLimit _ | .dimensionMismatch _ | .invalidDimensions _
  | .argumentCount .. | .typeError _ | .invalidArgument _ => .domain
  | .malformedNumber _ | .outOfRange => .internal

/-- A fault and the line it is reported on. -/
structure Failure where
  fault : Fault
  line : Nat
deriving DecidableEq, Repr

def Failure.kind (f : Failure) : Kind := f.fault.kind

/-- The report of a failure. -/
def Failure.message (f : Failure) : String := s!"{f.fault.text} [Line {f.line}]"

/-! ### Accesses that may miss -/

/-- The entry at position `i`, or the fault of a miss. -/
def entryAt {α : Type} (xs : List α) (i : Nat) : Except Fault α :=
  match xs[i]? with
  | some x => .ok x
  | none => .error .outOfRange

end PolyCalc
