import PolyCalc.Journal

/-!
The states of the evaluator between two tokens.

There is no syntax tree. What is left to do with a value that is being computed
is a `Pending`, indexed by the stage of the grammar that the value will complete:
an operand completes a product, a product completes a sum, a sum is a term, a
term is an expression or an exponent, and an expression goes where its context
puts it. A `Mode` says what the next token has to begin or to continue, together
with what is pending.
-/

namespace PolyCalc

/-- A call under way: its name, what is called, the line it is reported on, and
the arguments so far. -/
structure Call where
  name : String
  callee : Callable Float
  line : Nat
  args : List (Value Float)

/-- The call with one more argument. -/
def Call.push (c : Call) (v : Value Float) : Call := { c with args := c.args ++ [v] }

/-! ### Lambda bodies -/

/-- A lambda under way: its captured names, its line, the name that its terms
use as the variable, and the sums of its coefficients so far. -/
structure Lambda where
  captures : List String
  line : Nat
  unknown : Option String
  coefficients : Array Float

namespace Lambda

/-- A lambda before its first term. -/
def start (captures : List String) (line : Nat) : Lambda := ⟨captures, line, none, #[]⟩

/-- Uses a name as the variable. All terms use the same one. -/
def use (l : Lambda) (name : String) : Except Fault Lambda :=
  match l.unknown with
  | none => .ok { l with unknown := some name }
  | some expected =>
      if expected = name then .ok l else .error (.mixedVariables expected name)

/-- Adds a term; terms of one power are summed up. -/
def add (l : Lambda) (coefficient : Float) (power : Nat) : Except Fault Lambda := do
  let room := l.coefficients ++ Array.replicate (power + 1 - l.coefficients.size) 0.0
  return { l with coefficients := ← addAt room power coefficient }

/-- The polynomial of the terms. -/
def poly (l : Lambda) : Poly Float := .ofList l.coefficients.toList

end Lambda

/-! ### Pending work -/

/-- What a value completes. -/
inductive Stage where
  | goal
  | expression
  | term
  | addend
  | operand
deriving DecidableEq, Repr

/-- What is left to do with the value of a stage, from the inside out. -/
inductive Pending : Stage → Type where
  /-- A statement without a name: the value is dropped. -/
  | discard : Pending .goal
  /-- A declaration. -/
  | declare (name : String) : Pending .goal
  /-- The value of an expression in parentheses. -/
  | group (k : Pending .operand) : Pending .goal
  /-- An argument of a call. -/
  | argument (call : Call) (k : Pending .operand) : Pending .goal
  /-- Reassignments, the innermost first, before the goal. -/
  | into (targets : List String) (k : Pending .goal) : Pending .expression
  /-- A term that is the whole expression. -/
  | whole (k : Pending .expression) : Pending .term
  /-- The exponent of a term of a lambda with the given coefficient. -/
  | exponent (l : Lambda) (coefficient : Float) (line : Nat) (k : Pending .expression) :
      Pending .term
  | firstAddend (k : Pending .term) : Pending .addend
  | addTo (op : Operator) (lhs : Value Float) (line : Nat) (k : Pending .term) : Pending .addend
  | firstFactor (k : Pending .addend) : Pending .operand
  | multiplyInto (op : Operator) (lhs : Value Float) (line : Nat) (k : Pending .addend) :
      Pending .operand
  /-- A factor of the coefficient of a term of a lambda, after the factors so
  far. -/
  | coefficient (l : Lambda) (sign : Float) (sofar : Option (Operator × Float)) (line : Nat)
      (k : Pending .expression) : Pending .operand

namespace Pending

/-- An expression without reassignments. -/
abbrev expression (k : Pending .goal) : Pending .expression := .into [] k

/-- The first operand of a term. -/
abbrev firstOperand (k : Pending .term) : Pending .operand := .firstFactor (.firstAddend k)

end Pending

/-! ### Modes -/

/-- What comes next. -/
inductive Mode where
  /-- A statement, or the end. -/
  | statement
  /-- The name after `var`. -/
  | declareName
  /-- The `:=` of a declaration. -/
  | declareSign (name : String)
  | expression (k : Pending .expression)
  /-- The `:=` of a reassignment. -/
  | assignSign (name : String) (k : Pending .expression)
  | operand (k : Pending .operand)
  /-- The number after a minus sign. -/
  | negated (k : Pending .operand)
  /-- What follows an operand. -/
  | value (v : Value Float) (k : Pending .operand)
  /-- What follows the name of a call: generics or arguments. -/
  | callee (call : Call) (k : Pending .operand)
  /-- The first generic argument, or the end of the list. -/
  | firstGeneric (call : Call) (k : Pending .operand)
  | generic (call : Call) (generics : List Float) (k : Pending .operand)
  | negatedGeneric (call : Call) (generics : List Float) (k : Pending .operand)
  | afterGeneric (call : Call) (generics : List Float) (k : Pending .operand)
  /-- The `(` after generics. -/
  | openArguments (call : Call) (k : Pending .operand)
  /-- The first argument, or the end of the list. -/
  | firstArgument (call : Call) (k : Pending .operand)
  /-- The first captured name, or the end of the list. -/
  | firstCapture (line : Nat) (k : Pending .expression)
  | capture (line : Nat) (names : List String) (k : Pending .expression)
  | afterCapture (line : Nat) (names : List String) (k : Pending .expression)
  /-- The `->` of a lambda. -/
  | arrow (line : Nat) (names : List String) (k : Pending .expression)
  /-- The first term of a lambda, which may have a minus sign. -/
  | body (l : Lambda) (k : Pending .expression)
  | component (l : Lambda) (sign : Float) (k : Pending .expression)
  /-- What follows an operator in a coefficient: a factor, or after `*` the
  variable. -/
  | factor (l : Lambda) (sign : Float) (op : Operator) (coefficient : Float)
      (k : Pending .expression)
  /-- What follows the variable: an exponent, or the end of the term. -/
  | afterVariable (l : Lambda) (coefficient : Float) (k : Pending .expression)
  /-- The `(` after `^`. -/
  | openExponent (l : Lambda) (coefficient : Float) (line : Nat) (k : Pending .expression)
  /-- What follows a term of a lambda. -/
  | afterComponent (l : Lambda) (k : Pending .expression)

end PolyCalc
