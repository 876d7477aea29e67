import PolyCalc.Eval.Pending
import PolyCalc.Number.Literal
import PolyCalc.Operator.Apply

/-!
One step of the evaluator.

`step` takes the mode, the token in turn and the token after it, and gives the
mode for that next token. The environment is only read; what changes it is in
the events of the step. A step sees the next token once when it moves on, and
once more for every look ahead, so that the journal tells reading from looking.

A value is settled as soon as the token after it shows what it belongs to:
`valueStep` finishes the pending product, then the sum, then the term, and
`goalStep` puts the expression where it goes.
-/

namespace PolyCalc

open Traced

section

variable (env : Env) (t next : Located)

/-- Moves on past the token in turn if it is the given one. -/
def expect (token : Token) (expected : Expected) : Traced Unit :=
  if t.token = token then see next else unexpected t expected

/-- The number that a literal stands for. -/
def literalValue (literal : String) : Traced Float :=
  match Number.read? literal with
  | some x => pure x
  | none => fail (.malformedNumber literal) t.line

/-! ### Operands and expressions -/

/-- Begins an operand: a number, a name, a call or a group. -/
def operandStep (k : Pending .operand) : Traced Mode :=
  match t.token with
  | .number literal => do
      let x ← literalValue t literal
      see next
      return .value (.number x) k
  | .minus => do
      see next
      return .negated k
  | .identifier name => do
      see next
      see next
      let v ← attempt t.line (env.lookup name)
      if next.token.opensCall then
        match v.asCallable? with
        | some c => return .callee ⟨name, c, t.line, []⟩ k
        | none => fail (.notCallable name) t.line
      else return .value v k
  | .leftParen => do
      see next
      return .expression (.expression (.group k))
  | _ => unexpected t .operand

/-- Begins an expression: a lambda, a reassignment or a term. -/
def expressionStep (k : Pending .expression) : Traced Mode :=
  match t.token with
  | .captureBegin => do
      see next
      return .firstCapture t.line k
  | .identifier name => do
      see next
      if next.token = .assign then
        see next
        if env.contains name then return .assignSign name k
        else fail (.undefinedName name) t.line
      else operandStep env t next (.firstOperand (.whole k))
  | _ => operandStep env t next (.firstOperand (.whole k))

/-- Ends the number after a minus sign. -/
def negatedStep (k : Pending .operand) : Traced Mode :=
  match t.token with
  | .number literal => do
      let x ← literalValue t literal
      see next
      return .value (.number (-x)) k
  | _ => unexpected t .number

/-! ### Calls -/

/-- Calls with the arguments that are there. -/
def finishCall (call : Call) (k : Pending .operand) : Traced Mode := do
  emit [.called call.name call.args.length]
  let answer ← attempt call.line (call.callee.invoke call.args)
  emit (answer.printed.map .printed)
  return .value answer.value k

/-- Gives generic arguments to what is called. -/
def finishGenerics (call : Call) (generics : List Float) (k : Pending .operand) :
    Traced Mode := do
  let callee ← attempt call.line (call.callee.specialize generics)
  return .openArguments { call with callee } k

def calleeStep (call : Call) (k : Pending .operand) : Traced Mode :=
  match t.token with
  | .genericBegin => do
      see next
      return .firstGeneric call k
  | _ => do
      expect t next .leftParen (.exactly .leftParen)
      return .firstArgument call k

def genericStep (call : Call) (generics : List Float) (k : Pending .operand) : Traced Mode :=
  match t.token with
  | .number literal => do
      let x ← literalValue t literal
      see next
      return .afterGeneric call (generics ++ [x]) k
  | .minus => do
      see next
      return .negatedGeneric call generics k
  | _ => unexpected t .number

def negatedGenericStep (call : Call) (generics : List Float) (k : Pending .operand) :
    Traced Mode :=
  match t.token with
  | .number literal => do
      let x ← literalValue t literal
      see next
      return .afterGeneric call (generics ++ [-x]) k
  | _ => unexpected t .number

def firstGenericStep (call : Call) (k : Pending .operand) : Traced Mode :=
  match t.token with
  | .genericEnd => do
      see next
      finishGenerics call [] k
  | _ => genericStep t next call [] k

def afterGenericStep (call : Call) (generics : List Float) (k : Pending .operand) :
    Traced Mode :=
  match t.token with
  | .comma => do
      see next
      return .generic call generics k
  | _ => do
      expect t next .genericEnd (.separatorOr .genericEnd)
      finishGenerics call generics k

def firstArgumentStep (call : Call) (k : Pending .operand) : Traced Mode :=
  match t.token with
  | .rightParen => do
      see next
      finishCall call k
  | _ => expressionStep env t next (.expression (.argument call k))

/-! ### Where expressions go -/

/-- Puts the value of an expression where it goes. -/
def goalStep (v : Value Float) : Pending .goal → Traced Mode
  | .discard => do
      expect t next .terminator (.exactly .terminator)
      return .statement
  | .declare name => do
      emit [.declared name v]
      expect t next .terminator (.exactly .terminator)
      return .statement
  | .group k => do
      expect t next .rightParen (.exactly .rightParen)
      return .value v k
  | .argument call k =>
      match t.token with
      | .comma => do
          see next
          return .expression (.expression (.argument (call.push v) k))
      | _ => do
          expect t next .rightParen (.separatorOr .rightParen)
          finishCall (call.push v) k

/-- Ends an expression: the reassignments first, then its goal. -/
def deliver (v : Value Float) : Pending .expression → Traced Mode
  | .into targets k => do
      emit (targets.map (.assigned · v))
      goalStep t next v k

/-! ### Lambdas -/

def captureStep (line : Nat) (names : List String) (k : Pending .expression) : Traced Mode :=
  match t.token with
  | .identifier name => do
      see next
      return .afterCapture line (names ++ [name]) k
  | _ => unexpected t .identifier

def firstCaptureStep (line : Nat) (k : Pending .expression) : Traced Mode :=
  match t.token with
  | .captureEnd => do
      see next
      return .arrow line [] k
  | _ => captureStep t next line [] k

def afterCaptureStep (line : Nat) (names : List String) (k : Pending .expression) :
    Traced Mode :=
  match t.token with
  | .comma => do
      see next
      return .capture line names k
  | _ => do
      expect t next .captureEnd (.separatorOr .captureEnd)
      return .arrow line names k

def arrowStep (line : Nat) (names : List String) (k : Pending .expression) : Traced Mode := do
  expect t next .arrow (.exactly .arrow)
  emit [.entered names]
  return .body (.start names line) k

/-- The name in turn if it is to be taken as the variable of a lambda: declared
without a value and not called. A name that is not declared, or that has a value
and an exponent, is not captured. -/
def unknownName? : Traced (Option String) :=
  match t.token with
  | .identifier name => do
      see next
      if next.token.opensCall then return none
      else if env.isUnbound name then return some name
      else if !env.contains name || next.token = .caret then fail (.notCaptured name) t.line
      else return none
  | _ => return none

/-- Ends a term at its variable. -/
def takeVariable (l : Lambda) (name : String) (coefficient : Float) (k : Pending .expression) :
    Traced Mode := do
  let l ← attempt t.line (l.use name)
  see next
  return .afterVariable l coefficient k

/-- Begins a factor of a coefficient. -/
def factorStep (l : Lambda) (sign : Float) (sofar : Option (Operator × Float))
    (k : Pending .expression) : Traced Mode := do
  let _ ← unknownName? env t next
  operandStep env t next (.coefficient l sign sofar t.line k)

/-- Begins a term: its variable, or the first factor of its coefficient. -/
def componentStep (l : Lambda) (sign : Float) (k : Pending .expression) : Traced Mode := do
  match ← unknownName? env t next with
  | some name =>
      see next
      takeVariable t next l name (sign * 1.0) k
  | none => factorStep env t next l sign none k

/-- Begins the body of a lambda. -/
def bodyStep (l : Lambda) (k : Pending .expression) : Traced Mode :=
  match t.token with
  | .minus => do
      see next
      return .component l (-1.0) k
  | _ => componentStep env t next l 1.0 k

/-- Goes on after an operator in a coefficient. -/
def afterOperatorStep (l : Lambda) (sign : Float) (op : Operator) (coefficient : Float)
    (k : Pending .expression) : Traced Mode := do
  if op = .multiply then
    match ← unknownName? env t next with
    | some name =>
        see next
        takeVariable t next l name (sign * coefficient) k
    | none => factorStep env t next l sign (some (op, coefficient)) k
  else factorStep env t next l sign (some (op, coefficient)) k

/-- Goes on after a term: with the next one, or to the end of the lambda. -/
def afterComponentStep (l : Lambda) (k : Pending .expression) : Traced Mode :=
  match t.token.sumOperator? with
  | some op => do
      see next
      return .component l (if op = .add then 1.0 else -1.0) k
  | none => do
      emit [.built l.captures l.line l.poly]
      deliver t next (.function l.poly) k

/-- Goes on after the variable of a term. Without an exponent it is 1. -/
def afterVariableStep (l : Lambda) (coefficient : Float) (k : Pending .expression) :
    Traced Mode :=
  match t.token with
  | .caret => do
      see next
      return .openExponent l coefficient t.line k
  | _ => do afterComponentStep t next (← attempt t.line (l.add coefficient 1)) k

/-- The power that an exponent stands for. -/
def powerOf (x : Float) : Except Fault Nat := do
  match Number.toCount? x with
  | none => .error (.invalidExponent x)
  | some power =>
      checkDegree power
      return power

/-- Ends an exponent. -/
def exponentStep (v : Value Float) (l : Lambda) (coefficient : Float) (line : Nat)
    (k : Pending .expression) : Traced Mode := do
  let x ← attempt line v.asNumber
  expect t next .rightParen (.exactly .rightParen)
  let power ← attempt line (powerOf x)
  return .afterComponent (← attempt line (l.add coefficient power)) k

/-- Goes on after a factor of a coefficient. -/
def coefficientStep (v : Value Float) (l : Lambda) (sign : Float)
    (sofar : Option (Operator × Float)) (line : Nat) (k : Pending .expression) :
    Traced Mode := do
  let x ← attempt line v.asNumber
  let coefficient := match sofar with
    | none => x
    | some (op, lhs) => op.onScalars lhs x
  match t.token.productOperator? with
  | some op =>
      see next
      return .factor l sign op coefficient k
  | none =>
      match ← unknownName? env t next with
      | some name => takeVariable t next l name (sign * coefficient) k
      | none => do
          afterComponentStep t next (← attempt t.line (l.add (sign * coefficient) 0)) k

/-! ### After operands -/

/-- Goes on after a term that is complete. -/
def termStep (v : Value Float) : Pending .term → Traced Mode
  | .whole k => deliver t next v k
  | .exponent l coefficient line k => exponentStep t next v l coefficient line k

/-- Goes on after a sum. -/
def sumStep (v : Value Float) (k : Pending .term) : Traced Mode :=
  match t.token.sumOperator? with
  | some op => do
      see next
      return .operand (.firstFactor (.addTo op v t.line k))
  | none => termStep t next v k

/-- Goes on after a product: it is added to the sum before it unless it goes
on. -/
def productStep (v : Value Float) (k : Pending .addend) : Traced Mode :=
  match t.token.productOperator? with
  | some op => do
      see next
      return .operand (.multiplyInto op v t.line k)
  | none =>
      match k with
      | .firstAddend k => sumStep t next v k
      | .addTo op lhs line k => do
          sumStep t next (← attempt line (op.apply lhs v)) k

/-- Goes on after an operand: it is multiplied into the product before it. -/
def valueStep (v : Value Float) : Pending .operand → Traced Mode
  | .firstFactor k => productStep t next v k
  | .multiplyInto op lhs line k => do
      productStep t next (← attempt line (op.apply lhs v)) k
  | .coefficient l sign sofar line k => coefficientStep env t next v l sign sofar line k

/-! ### Statements -/

def statementStep : Traced Mode :=
  match t.token with
  | .endOfFile => return .statement
  | .var => do
      emit [.statement t.line]
      see next
      return .declareName
  | _ => do
      emit [.statement t.line]
      expressionStep env t next (.expression .discard)

def declareNameStep : Traced Mode :=
  match t.token with
  | .identifier name => do
      see next
      if env.contains name then fail (.redefinedName name) t.line
      else return .declareSign name
  | _ => unexpected t .identifier

/-! ### All modes -/

/-- The step for the token in turn. -/
def step : Mode → Traced Mode
  | .statement => statementStep env t next
  | .declareName => declareNameStep env t next
  | .declareSign name => do
      expect t next .assign (.exactly .assign)
      return .expression (.expression (.declare name))
  | .expression k => expressionStep env t next k
  | .assignSign name (.into targets k) => do
      expect t next .assign (.exactly .assign)
      return .expression (.into (name :: targets) k)
  | .operand k => operandStep env t next k
  | .negated k => negatedStep t next k
  | .value v k => valueStep env t next v k
  | .callee call k => calleeStep t next call k
  | .firstGeneric call k => firstGenericStep t next call k
  | .generic call generics k => genericStep t next call generics k
  | .negatedGeneric call generics k => negatedGenericStep t next call generics k
  | .afterGeneric call generics k => afterGenericStep t next call generics k
  | .openArguments call k => do
      expect t next .leftParen (.exactly .leftParen)
      return .firstArgument call k
  | .firstArgument call k => firstArgumentStep env t next call k
  | .firstCapture line k => firstCaptureStep t next line k
  | .capture line names k => captureStep t next line names k
  | .afterCapture line names k => afterCaptureStep t next line names k
  | .arrow line names k => arrowStep t next line names k
  | .body l k => bodyStep env t next l k
  | .component l sign k => componentStep env t next l sign k
  | .factor l sign op coefficient k => afterOperatorStep env t next l sign op coefficient k
  | .afterVariable l coefficient k => afterVariableStep t next l coefficient k
  | .openExponent l coefficient line k => do
      expect t next .leftParen (.exactly .leftParen)
      return .operand (.firstOperand (.exponent l coefficient line k))
  | .afterComponent l k => afterComponentStep t next l k

end

end PolyCalc
