import PolyCalc.Proofs.Captures
import PolyCalc.Proofs.Incremental
import PolyCalc.Proofs.Lambda.Terms
import PolyCalc.Proofs.Tree.Steps

/-!
Steps of the evaluator in lambdas.

There is one equation for each kind of step that the tokens of a lambda lead to. They are
about what an evaluation shows (`shown`) and hold in all scopes, so that a lambda may stand
inside of another one. Only the first and the last step of a body have an effect: the body
begins in a scope of its own (`shown_arrow`), and its end drops that scope (`shown_built`).
-/

namespace PolyCalc

open Traced

/-! ### Steps that show nothing -/

/-- What the evaluation of the tokens from a mode on shows. -/
def shown (scopes : Scopes) (m : Mode) (ts : List Located) : Report :=
  (evaluate scopes m ts).report

section

variable {scopes : Scopes} {m m' : Mode} {t : Located} {ts : List Located}

/-- A step that has no effect and moves on. -/
theorem shown_move
    (moves : effects (step scopes.current t (ts.headD t) m).events = [] ∧
      (step scopes.current t (ts.headD t) m).result = .ok m') :
    shown scopes m (t :: ts) = shown scopes m' ts :=
  (evaluate_cons_report scopes m t ts).trans (Report.ofStep_congr (y := pure m') moves)

/-- Two modes that do the same with the token in turn. -/
theorem shown_same
    (same : step scopes.current t (ts.headD t) m = step scopes.current t (ts.headD t) m') :
    shown scopes m (t :: ts) = shown scopes m' (t :: ts) := by
  unfold shown
  rw [evaluate_cons_report, evaluate_cons_report, same]

end

/-! ### Steps in lambdas -/

/-- The tokens after a term: a sign, or the end of the lambda. -/
def Token.endsMonomial (t : Token) : Bool := t.sumOperator?.isSome || t.closes

theorem Token.endsMonomial_not {token : Token} (ends : token.endsMonomial = true) :
    token.productOperator? = none ∧ token.opensCall = false ∧ token ≠ .caret ∧
      ∀ name, token ≠ .identifier name := by
  cases token <;> simp [endsMonomial, sumOperator?, closes] at ends <;>
    simp [productOperator?, opensCall]

/-- A variable in turn ends a term of the lambda with the coefficient. -/
inductive Mode.Awaits (l : Lambda) (k : Pending .expression) : Float → Mode → Prop where
  | component {sign} : Awaits l k (sign * 1.0) (.component l sign k)
  | factor {sign c} : Awaits l k (sign * c) (.factor l sign .multiply c k)
  | coefficient {sign sofar v line} : Awaits l k (sign * withFactor sofar v)
      (.value (.number v) (.coefficient l sign sofar line k))

section

variable {scopes : Scopes} {t u : Located} {ts : List Located} {l l' : Lambda} {x : String}
  {sign c v : Float} {sofar : Option (Operator × Float)} {line : Nat} {op : Operator}
  {k : Pending .expression} {names : List String} {lit : Literal}

/-! Before the body. -/

theorem shown_captureBegin (found : t.token = .captureBegin) :
    shown scopes (.expression k) (t :: ts) = shown scopes (.firstCapture t.line k) ts :=
  shown_move (by simp only [step, expressionStep, found]; exact ⟨rfl, rfl⟩)

theorem shown_firstCapture (found : t.token = .identifier x) :
    shown scopes (.firstCapture line k) (t :: ts) = shown scopes (.afterCapture line [x] k) ts :=
  shown_move (by simp only [step, firstCaptureStep, captureStep, found]; exact ⟨rfl, rfl⟩)

theorem shown_captureEnd (found : t.token = .captureEnd) :
    shown scopes (.afterCapture line names k) (t :: ts) = shown scopes (.arrow line names k) ts :=
  shown_move (by
    simp only [step, afterCaptureStep, found, expect_found found]
    exact ⟨rfl, rfl⟩)

/-- The body begins in a scope of its own. -/
theorem shown_arrow (found : t.token = .arrow) :
    shown scopes (.arrow line names k) (t :: ts) =
      shown (scopes.enter names) (.body (.start names line) k) ts := by
  rw [shown, evaluate_cons_report]
  simp only [step, arrowStep, expect_found found]
  rfl

/-! Signs. -/

theorem shown_bodyMinus (found : t.token = .minus) :
    shown scopes (.body l k) (t :: ts) = shown scopes (.component l (-1.0) k) ts :=
  shown_move (by simp only [step, bodyStep, found]; exact ⟨rfl, rfl⟩)

theorem shown_body (found : t.token ≠ .minus) :
    shown scopes (.body l k) (t :: ts) = shown scopes (.component l 1.0 k) (t :: ts) :=
  shown_same (by simp only [step, bodyStep])

theorem shown_sign (found : t.token.sumOperator? = some op) :
    shown scopes (.afterComponent l k) (t :: ts) =
      shown scopes (.component l (if op = .add then 1.0 else -1.0) k) ts :=
  shown_move (by simp only [step, afterComponentStep, found]; exact ⟨rfl, rfl⟩)

/-! Coefficients. -/

theorem shown_firstFactor (found : t.token = .number lit.text) :
    shown scopes (.component l sign k) (t :: ts) =
      shown scopes (.value (.number lit.value) (.coefficient l sign none t.line k)) ts :=
  shown_move (by
    simp only [step, componentStep, unknownName?, found, Traced.pure_bind, factorStep, operandStep,
      literalValue_text]
    exact ⟨rfl, rfl⟩)

theorem shown_operator (found : t.token.productOperator? = some op) :
    shown scopes (.value (.number v) (.coefficient l sign sofar line k)) (t :: ts) =
      shown scopes (.factor l sign op (withFactor sofar v) k) ts :=
  shown_move (by
    simp only [step, valueStep, coefficientStep, found]
    exact ⟨rfl, rfl⟩)

theorem shown_factor (found : t.token = .number lit.text) :
    shown scopes (.factor l sign op c k) (t :: ts) =
      shown scopes (.value (.number lit.value) (.coefficient l sign (some (op, c)) t.line k))
        ts :=
  shown_move (by
    simp only [step, afterOperatorStep, unknownName?, found, Traced.pure_bind, factorStep,
      operandStep, literalValue_text, ite_self]
    exact ⟨rfl, rfl⟩)

/-! Ends of terms. -/

theorem unknownName?_other {env : Env} {next : Located}
    (other : ∀ name, t.token ≠ .identifier name) : unknownName? env t next = pure none := by
  unfold unknownName?
  split
  · rename_i name found
    exact absurd found (other name)
  · rfl

/-- A coefficient without the variable is a constant. -/
theorem shown_constant (ends : t.token.endsMonomial = true)
    (added : l.add (sign * withFactor sofar v) 0 = .ok l') :
    shown scopes (.value (.number v) (.coefficient l sign sofar line k)) (t :: ts) =
      shown scopes (.afterComponent l' k) (t :: ts) := by
  obtain ⟨product, -, -, other⟩ := Token.endsMonomial_not ends
  refine shown_same ?_
  simp only [step, valueStep, coefficientStep, product, unknownName?_other other]
  exact congrArg (fun r => attempt t.line r >>= fun l => afterComponentStep t (ts.headD t) l k)
    added

/-- Without an exponent the power is 1. -/
theorem shown_linear (ends : t.token.endsMonomial = true) (added : l.add c 1 = .ok l') :
    shown scopes (.afterVariable l c k) (t :: ts) =
      shown scopes (.afterComponent l' k) (t :: ts) := by
  obtain ⟨-, -, notCaret, -⟩ := Token.endsMonomial_not ends
  refine shown_same ?_
  simp only [step, afterVariableStep, added]
  rfl

/-! Exponents. -/

theorem shown_caret (found : t.token = .caret) :
    shown scopes (.afterVariable l c k) (t :: ts) =
      shown scopes (.openExponent l c t.line k) ts :=
  shown_move (by simp only [step, afterVariableStep, found]; exact ⟨rfl, rfl⟩)

theorem shown_openExponent (found : t.token = .leftParen) :
    shown scopes (.openExponent l c line k) (t :: ts) =
      shown scopes (.operand (.firstOperand (.exponent l c line k))) ts :=
  shown_move (by simp only [step, expect_found found]; exact ⟨rfl, rfl⟩)

theorem shown_number {k : Pending .operand} (found : t.token = .number lit.text) :
    shown scopes (.operand k) (t :: ts) = shown scopes (.value (.number lit.value) k) ts :=
  shown_move (by simp only [step, operandStep, found, literalValue_text]; exact ⟨rfl, rfl⟩)

theorem Exponent.powerOf (e : Exponent) : powerOf e.literal.value = .ok e.power := by
  simp only [PolyCalc.powerOf, e.whole, checkDegree_of_le e.within]
  rfl

theorem shown_closeExponent (e : Exponent) (found : t.token = .rightParen)
    (added : l.add c e.power = .ok l') :
    shown scopes (.value (.number e.literal.value) (.firstOperand (.exponent l c line k)))
        (t :: ts) = shown scopes (.afterComponent l' k) ts := by
  have product : t.token.productOperator? = none := by rw [found]; rfl
  have sum : t.token.sumOperator? = none := by rw [found]; rfl
  refine shown_move ?_
  simp only [step, valueStep, productStep, product, sumStep, sum, termStep, exponentStep,
    expect_found found, Value.asNumber, attempt, Traced.pure_bind, e.powerOf, added]
  exact ⟨rfl, rfl⟩

/-! The variable. -/

theorem shown_variable {m : Mode} (awaits : m.Awaits l k c)
    (found : IsVariable scopes.current t u x) (used : l.use x = .ok l') :
    shown scopes m (t :: u :: ts) = shown scopes (.afterVariable l' c k) (u :: ts) := by
  have taken (c : Float) : takeVariable t u l x c k = see u >>= fun _ =>
      pure (.afterVariable l' c k) := by
    rw [takeVariable, used]
    rfl
  refine shown_move ?_
  rw [List.headD_cons]
  cases awaits with
  | component =>
      simp only [step, componentStep, unknownName?_variable found, bind_assoc, Traced.pure_bind,
        taken]
      exact ⟨rfl, rfl⟩
  | factor =>
      simp only [step, afterOperatorStep, unknownName?_variable found, bind_assoc,
        Traced.pure_bind, taken, if_true]
      exact ⟨rfl, rfl⟩
  | coefficient =>
      have product : t.token.productOperator? = none := by rw [found.1]; rfl
      simp only [step, valueStep, coefficientStep, product, unknownName?_variable found, bind_assoc,
        Traced.pure_bind, taken]
      exact ⟨rfl, rfl⟩

/-! The end of the lambda. -/

/-- The body of a lambda ends, and with it the scope of the body. -/
theorem shown_built (names : List String) (closes : t.token.closes = true) :
    shown (scopes.enter names) (.afterComponent l k) (t :: ts) =
      shown scopes (.value (.function l.poly) (.firstOperand (.whole k))) (t :: ts) := by
  obtain ⟨-, product, sum⟩ := Token.closes_not_operator closes
  unfold shown
  rw [evaluate_cons_report, evaluate_cons_report]
  simp only [step, afterComponentStep, valueStep, productStep, product, sumStep, sum, termStep]
  obtain ⟨events, result⟩ := deliver t (ts.headD t) (.function l.poly) k
  cases result with
  | ok m => rfl
  | error failure => rfl

end

end PolyCalc
