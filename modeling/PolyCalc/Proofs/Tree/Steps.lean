import PolyCalc.Proofs.Effects
import PolyCalc.Proofs.Tree

/-!
Steps of the evaluator as executions.

Read as an execution in a world, the evaluation of tokens from a mode on (`resume`)
is a step and then the evaluation of the tokens that follow (`resume_cons`).
There is one equation for each kind of step that the tokens of a tree lead to.
None of them mentions lines: an execution ends with a fault and not with a failure.
-/

namespace PolyCalc

open Exec
open Traced (see emit fail)

/-! ### Evaluations as executions -/

/-- The execution that leads to a report. -/
def Exec.ofReport (report : Env → Report) : Exec Unit :=
  ExceptT.mk fun w =>
    ((report w.env).result.mapError Failure.fault,
      ⟨(report w.env).env, w.printed ++ (report w.env).printed⟩)

/-- Evaluates the tokens from a mode on, outside all lambdas. -/
def resume (m : Mode) (ts : List Located) : Exec Unit :=
  ofReport fun env => (evaluate ⟨env, []⟩ m ts).report

/-- Ends a step and evaluates the tokens after it. -/
def proceed (x : Traced Mode) (ts : List Located) : Exec Unit :=
  ofReport fun env => .ofStep ⟨env, []⟩ x fun scopes m => (evaluate scopes m ts).report

section

variable {α : Type} {ts : List Located} {t : Located}

/-- A step, and the evaluation of the tokens after it. -/
theorem resume_cons (m : Mode) (t : Located) (ts : List Located) :
    resume m (t :: ts) =
      environment >>= fun env => proceed (step env t (ts.headD t) m) ts := by
  have first (env : Env) := evaluate_cons_report ⟨env, []⟩ m t ts
  funext w
  simp only [resume, ofReport, first]
  rfl

theorem environment_bind (x : Exec α) : (environment >>= fun _ => x) = x := rfl

theorem proceed_pure (m : Mode) : proceed (pure m) ts = resume m ts := rfl

/-- A sight does nothing. -/
theorem proceed_see (f : Unit → Traced Mode) : proceed (see t >>= f) ts = proceed (f ()) ts := rfl

/-- An execution that only ends. -/
theorem ofReport_unchanged (result : Except Failure Unit) :
    (ofReport fun env => ⟨[], env, result⟩) = attempt (result.mapError Failure.fault) := by
  funext w
  show (_, World.mk w.env (w.printed ++ [])) = _
  rw [List.append_nil]
  rfl

/-- A failure ends the execution with its fault; the line is not kept. -/
theorem proceed_fail (fault : Fault) (line : Nat) : proceed (fail fault line) ts = throw fault :=
  ofReport_unchanged (.error ⟨fault, line⟩)

/-- An attempt of a step is one of the execution. -/
theorem proceed_attempt (line : Nat) (x : Except Fault α) (f : α → Traced Mode) :
    proceed (Traced.attempt line x >>= f) ts = Exec.attempt x >>= fun a => proceed (f a) ts := by
  cases x with
  | ok a => rfl
  | error fault => exact proceed_fail fault line

theorem proceed_statement (line : Nat) (f : Unit → Traced Mode) :
    proceed (emit [.statement line] >>= f) ts = proceed (f ()) ts := rfl

theorem proceed_called (name : String) (count : Nat) (f : Unit → Traced Mode) :
    proceed (emit [.called name count] >>= f) ts = proceed (f ()) ts := rfl

/-- What a step prints is printed. -/
theorem proceed_printed (values : List (Value Float)) (f : Unit → Traced Mode) :
    proceed (emit (values.map .printed) >>= f) ts =
      print values >>= fun _ => proceed (f ()) ts := by
  funext w
  simp only [proceed, ofReport, Report.ofStep_printed, Report.after, ← List.append_assoc]
  rfl

end

/-! ### Steps of the evaluator

One equation for each kind of step that printed trees lead to. -/

section

variable {ts : List Located} {t u : Located} {name : String} {v : Value Float}

/-- A step that does not use the environment. -/
theorem resume_step {m : Mode} {x : Traced Mode} (same : ∀ env, step env t (ts.headD t) m = x) :
    resume m (t :: ts) = proceed x ts := by
  rw [resume_cons]
  simp only [same, environment_bind]

/-- A step that moves on first. -/
theorem resume_see {m : Mode} {x : Traced Mode}
    (same : ∀ env, step env t (ts.headD t) m = see (ts.headD t) >>= fun _ => x) :
    resume m (t :: ts) = proceed x ts :=
  (resume_step same).trans (proceed_see _)

/-- A step that only moves on. -/
theorem resume_move {m m' : Mode}
    (same : ∀ env, step env t (ts.headD t) m = see (ts.headD t) >>= fun _ => pure m') :
    resume m (t :: ts) = resume m' ts :=
  resume_step same

/-- A literal is read as its value. -/
theorem Literal.read (l : Literal) : Number.read? l.text = some l.value := (Option.some_get _).symm

theorem literalValue_text (l : Literal) : literalValue t l.text = pure l.value := by
  simp only [literalValue, l.read]

theorem expect_found {token : Token} {expected : Expected} {next : Located}
    (found : t.token = token) : expect t next token expected = see next := by
  rw [expect, if_pos found]

/-! Operands. -/

section

variable {k : Pending .operand}

theorem resume_number {l : Literal} (found : t.token = .number l.text) :
    resume (.operand k) (t :: ts) = resume (.value (.number l.value) k) ts :=
  resume_move fun env => by simp only [step, operandStep, found, literalValue_text]; rfl

theorem resume_minus (found : t.token = .minus) :
    resume (.operand k) (t :: ts) = resume (.negated k) ts :=
  resume_move fun env => by simp only [step, operandStep, found]

theorem resume_negated {l : Literal} (found : t.token = .number l.text) :
    resume (.negated k) (t :: ts) = resume (.value (.number (-l.value)) k) ts :=
  resume_move fun env => by simp only [step, negatedStep, found, literalValue_text]; rfl

theorem resume_leftParen (found : t.token = .leftParen) :
    resume (.operand k) (t :: ts) = resume (.expression (.expression (.group k))) ts :=
  resume_move fun env => by simp only [step, operandStep, found]

/-- A name that is not called is looked up. -/
theorem resume_name (found : t.token = .identifier name) (closed : u.token.opensCall = false) :
    resume (.operand k) (t :: u :: ts) =
      lookup name >>= fun v => resume (.value v k) (u :: ts) := by
  simp only [resume_cons _ t, step, operandStep, found, List.headD_cons, closed, proceed_see,
    proceed_attempt, Bool.false_eq_true, if_false, proceed_pure, lookup, bind_assoc]

/-- A name that is called is looked up, and it is checked that it can be called. -/
theorem resume_callee (found : t.token = .identifier name) (opens : u.token.opensCall = true) :
    resume (.operand k) (t :: u :: ts) =
      callee name >>= fun c => resume (.callee ⟨name, c, t.line, []⟩ k) (u :: ts) := by
  simp only [resume_cons _ t, step, operandStep, found, List.headD_cons, opens, proceed_see,
    proceed_attempt, if_true, callee, lookup, bind_assoc]
  refine bind_congr fun env => bind_congr fun v => ?_
  cases v.asCallable? with
  | some c => rfl
  | none => exact proceed_fail _ _

end

/-! Expressions. -/

/-- A reassignment. The name is kept for the value to come. -/
theorem resume_assign {targets : List String} {g : Pending .goal}
    (found : t.token = .identifier name) (sign : u.token = .assign) :
    resume (.expression (.into targets g)) (t :: u :: ts) =
      checkKnown name >>= fun _ => resume (.expression (.into (name :: targets) g)) ts := by
  have assign : resume (.assignSign name (.into targets g)) (u :: ts) =
      resume (.expression (.into (name :: targets) g)) ts :=
    resume_move fun env => by simp only [step, expect_found sign]
  simp only [resume_cons _ t, step, expressionStep, found, List.headD_cons, sign, proceed_see,
    if_true, checkKnown, bind_assoc]
  refine bind_congr fun env => ?_
  split
  · exact assign
  · exact proceed_fail _ _

/-- What is neither a lambda nor a reassignment starts with an operand. -/
theorem resume_term {k : Pending .expression} (noLambda : t.token ≠ .captureBegin)
    (notAssigned : ∀ name, t.token = .identifier name → (ts.headD t).token ≠ .assign) :
    resume (.expression k) (t :: ts) = resume (.operand (.firstOperand (.whole k))) (t :: ts) := by
  rw [resume_cons, resume_cons]
  refine bind_congr fun env => ?_
  simp only [step, expressionStep]
  split
  · rename_i found
    exact absurd found noLambda
  · rename_i name found
    rw [proceed_see, if_neg (notAssigned name found)]
  · rfl

/-! After operands. -/

theorem resume_product {op : Operator} {k : Pending .addend}
    (found : t.token.productOperator? = some op) :
    resume (.value v (.firstFactor k)) (t :: ts) =
      resume (.operand (.multiplyInto op v t.line k)) ts :=
  resume_move fun env => by simp only [step, valueStep, productStep, found]

theorem resume_sum {op : Operator} {k : Pending .term} (ended : t.token.productOperator? = none)
    (found : t.token.sumOperator? = some op) :
    resume (.value v (.firstOperand k)) (t :: ts) =
      resume (.operand (.firstFactor (.addTo op v t.line k))) ts :=
  resume_move fun env => by simp only [step, valueStep, productStep, ended, sumStep, found]

/-- The token after a factor stays in turn while the factor is multiplied in. -/
theorem resume_multiply {op : Operator} {lhs : Value Float} {line : Nat} {k : Pending .addend} :
    resume (.value v (.multiplyInto op lhs line k)) (t :: ts) =
      attempt (op.apply lhs v) >>= fun w => resume (.value w (.firstFactor k)) (t :: ts) := by
  have product (w : Value Float) : resume (.value w (.firstFactor k)) (t :: ts) =
      proceed (productStep t (ts.headD t) w k) ts :=
    resume_step fun env => rfl
  simp only [product, ← proceed_attempt line]
  exact resume_step fun env => rfl

/-- An addend that is not multiplied any further is added. -/
theorem resume_add {op : Operator} {lhs : Value Float} {line : Nat} {k : Pending .term}
    (ended : t.token.productOperator? = none) :
    resume (.value v (.firstFactor (.addTo op lhs line k))) (t :: ts) =
      attempt (op.apply lhs v) >>= fun w => resume (.value w (.firstOperand k)) (t :: ts) := by
  have sum (w : Value Float) : resume (.value w (.firstOperand k)) (t :: ts) =
      proceed (sumStep t (ts.headD t) w k) ts :=
    resume_step fun env => by simp only [step, valueStep, productStep, ended]
  simp only [sum, ← proceed_attempt line]
  exact resume_step fun env => by simp only [step, valueStep, productStep, ended]

/-! Where expressions go. The token after an expression is no operator. -/

section

variable {targets : List String} {g : Pending .goal} {k : Pending .operand} {call : Call}

/-- The tokens after an expression. -/
def Token.closes : Token → Bool
  | .rightParen | .comma | .terminator => true
  | _ => false

theorem Token.closes_not_operator {token : Token} (closing : token.closes = true) :
    token.opensCall = false ∧ token.productOperator? = none ∧ token.sumOperator? = none := by
  unfold Token.closes at closing
  split at closing
  · exact ⟨rfl, rfl, rfl⟩
  · exact ⟨rfl, rfl, rfl⟩
  · exact ⟨rfl, rfl, rfl⟩
  · cases closing

/-- A closing token ends the expression, and its value goes where it belongs. -/
theorem resume_deliver (closing : t.token.closes = true) :
    resume (.value v (.firstOperand (.whole (.into targets g)))) (t :: ts) =
      proceed (deliver t (ts.headD t) v (.into targets g)) ts := by
  obtain ⟨-, product, sum⟩ := Token.closes_not_operator closing
  exact resume_step fun env => by
    simp only [step, valueStep, productStep, product, sumStep, sum, termStep]

/-- A value is bound to the name closest to it first. -/
theorem resume_into (closing : t.token.closes = true) :
    resume (.value v (.firstOperand (.whole (.into (name :: targets) g)))) (t :: ts) =
      define name v >>= fun _ =>
        resume (.value v (.firstOperand (.whole (.into targets g)))) (t :: ts) := by
  rw [resume_deliver closing, resume_deliver closing]
  rfl

theorem resume_rightParen (found : t.token = .rightParen) :
    resume (.value v (.firstOperand (.whole (.expression (.group k))))) (t :: ts) =
      resume (.value v k) ts := by
  rw [resume_deliver (by simp [found, Token.closes])]
  simp only [deliver, goalStep, expect_found found]
  rfl

theorem resume_comma (found : t.token = .comma) :
    resume (.value v (.firstOperand (.whole (.expression (.argument call k))))) (t :: ts) =
      resume (.expression (.expression (.argument (call.push v) k))) ts := by
  rw [resume_deliver (by simp [found, Token.closes])]
  simp only [deliver, goalStep, found]
  rfl

theorem resume_discard (found : t.token = .terminator) :
    resume (.value v (.firstOperand (.whole (.expression .discard)))) (t :: ts) =
      resume .statement ts := by
  rw [resume_deliver (by simp [found, Token.closes])]
  simp only [deliver, goalStep, expect_found found]
  rfl

theorem resume_declare (found : t.token = .terminator) :
    resume (.value v (.firstOperand (.whole (.expression (.declare name))))) (t :: ts) =
      define name v >>= fun _ => resume .statement ts := by
  rw [resume_deliver (by simp [found, Token.closes])]
  simp only [deliver, goalStep, expect_found found]
  rfl

end

/-! Calls. -/

section

variable {call : Call} {k : Pending .operand}

/-- A call under way ends with its invocation. -/
theorem proceed_finishCall :
    proceed (finishCall call k) ts =
      invoke call.callee call.args >>= fun v => resume (.value v k) ts := by
  simp only [finishCall, proceed_called, proceed_attempt, proceed_printed, proceed_pure, invoke,
    bind_assoc, pure_bind]

theorem resume_lastArgument (found : t.token = .rightParen) :
    resume (.value v (.firstOperand (.whole (.expression (.argument call k))))) (t :: ts) =
      invoke call.callee (call.args ++ [v]) >>= fun w => resume (.value w k) ts := by
  rw [resume_deliver (by simp [found, Token.closes])]
  simp only [deliver, goalStep, found, expect_found found]
  exact proceed_finishCall

theorem resume_noArguments (found : t.token = .rightParen) :
    resume (.firstArgument call k) (t :: ts) =
      invoke call.callee call.args >>= fun w => resume (.value w k) ts := by
  rw [← proceed_finishCall]
  exact resume_see fun env => by simp only [step, firstArgumentStep, found]

theorem resume_argument (other : t.token ≠ .rightParen) :
    resume (.firstArgument call k) (t :: ts) =
      resume (.expression (.expression (.argument call k))) (t :: ts) := by
  rw [resume_cons, resume_cons]
  refine bind_congr fun env => ?_
  simp only [step, firstArgumentStep]

theorem resume_arguments (found : t.token = .leftParen) :
    resume (.callee call k) (t :: ts) = resume (.firstArgument call k) ts :=
  resume_move fun env => by simp only [step, calleeStep, found, expect_found found]

theorem resume_openArguments (found : t.token = .leftParen) :
    resume (.openArguments call k) (t :: ts) = resume (.firstArgument call k) ts :=
  resume_move fun env => by simp only [step, expect_found found]

/-! Generic arguments. -/

theorem resume_genericBegin (found : t.token = .genericBegin) :
    resume (.callee call k) (t :: ts) = resume (.firstGeneric call k) ts :=
  resume_move fun env => by simp only [step, calleeStep, found]

/-- A list of generic arguments ends with the callee specialized. -/
theorem proceed_finishGenerics {generics : List Float} :
    proceed (finishGenerics call generics k) ts =
      attempt (call.callee.specialize generics) >>= fun callee =>
        resume (.openArguments { call with callee } k) ts := by
  simp only [finishGenerics, proceed_attempt, proceed_pure]

theorem resume_noGenerics (found : t.token = .genericEnd) :
    resume (.firstGeneric call k) (t :: ts) =
      attempt (call.callee.specialize []) >>= fun callee =>
        resume (.openArguments { call with callee } k) ts := by
  rw [← proceed_finishGenerics]
  exact resume_see fun env => by simp only [step, firstGenericStep, found]

theorem resume_firstGeneric (other : t.token ≠ .genericEnd) :
    resume (.firstGeneric call k) (t :: ts) = resume (.generic call [] k) (t :: ts) := by
  rw [resume_cons, resume_cons]
  refine bind_congr fun env => ?_
  simp only [step, firstGenericStep]

theorem resume_genericComma {generics : List Float} (found : t.token = .comma) :
    resume (.afterGeneric call generics k) (t :: ts) = resume (.generic call generics k) ts :=
  resume_move fun env => by simp only [step, afterGenericStep, found]

theorem resume_genericEnd {generics : List Float} (found : t.token = .genericEnd) :
    resume (.afterGeneric call generics k) (t :: ts) =
      attempt (call.callee.specialize generics) >>= fun callee =>
        resume (.openArguments { call with callee } k) ts := by
  rw [← proceed_finishGenerics]
  exact resume_see fun env => by simp only [step, afterGenericStep, found, expect_found found]

end

/-! Statements. -/

/-- Between statements the end of the text ends the program. -/
theorem resume_finish (found : t.token = .endOfFile) : resume .statement [t] = pure () := by
  have step : resume .statement [t] = proceed (pure .statement) [] :=
    resume_step fun env => by simp only [step, statementStep, found]
  exact step.trans (ofReport_unchanged (.ok ()))

/-- A declaration up to its value. -/
theorem resume_var {sign : Located} (found : t.token = .var)
    (named : u.token = .identifier name) (assigned : sign.token = .assign) :
    resume .statement (t :: u :: sign :: ts) =
      checkNew name >>= fun _ => resume (.expression (.expression (.declare name))) ts := by
  have begins :
      resume .statement (t :: u :: sign :: ts) = resume .declareName (u :: sign :: ts) := by
    have first (env : Env) : step env t ((u :: sign :: ts).headD t) .statement =
        emit [.statement t.line] >>= fun _ => see u >>= fun _ => pure .declareName := by
      simp only [step, statementStep, found, List.headD_cons]
    exact resume_step first
  have signed : resume (.declareSign name) (sign :: ts) =
      resume (.expression (.expression (.declare name))) ts :=
    resume_move fun env => by simp only [step, expect_found assigned]
  rw [begins, resume_cons]
  simp only [step, declareNameStep, named, proceed_see, checkNew, bind_assoc]
  refine bind_congr fun env => ?_
  split
  · exact proceed_fail _ _
  · exact signed

/-- A statement that is no declaration is an expression whose value is dropped. -/
theorem resume_bare (notEnd : t.token ≠ .endOfFile) (notVar : t.token ≠ .var) :
    resume .statement (t :: ts) = resume (.expression (.expression .discard)) (t :: ts) := by
  rw [resume_cons, resume_cons]
  refine bind_congr fun env => ?_
  simp only [step, statementStep]
  exact proceed_statement _ _

end

end PolyCalc
