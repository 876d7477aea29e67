import PolyCalc.Proofs.Descent.Rules

/-!
Where rules stand in an evaluation.

An evaluation ends one step after the other. Where a rule begins, the evaluator is at the start
of a step or in the middle of one, and where the rule ends it goes on with the step for the
token that is then in turn (`Continues`). That the evaluator does in between what the rule
does is `Simulates`.
-/

namespace PolyCalc

/-! ### Outcomes of computations -/

namespace Traced

variable {α β : Type} {scopes : Scopes}

/-- The outcome of a computation in scopes, and of what follows it. -/
def outcome (x : Traced α) (scopes : Scopes) (next : Scopes → α → Outcome) : Outcome :=
  match x.result with
  | .ok a => (next (scopes.replay x.events) a).after x.events
  | .error failure => ⟨x.events, (scopes.replay x.events).globals, .error failure⟩

theorem outcome_congr {x : Traced α} {next next' : Scopes → α → Outcome}
    (same : ∀ a, x.result = .ok a →
      next (scopes.replay x.events) a = next' (scopes.replay x.events) a) :
    x.outcome scopes next = x.outcome scopes next' := by
  obtain ⟨events, result⟩ := x
  cases result with
  | error failure => rfl
  | ok a => exact congrArg (Outcome.after events) (same a rfl)

theorem outcome_pure (a : α) (next : Scopes → α → Outcome) :
    (pure a : Traced α).outcome scopes next = next scopes a := rfl

theorem outcome_bind (x : Traced α) (f : α → Traced β) (next : Scopes → β → Outcome) :
    (x >>= f).outcome scopes next = x.outcome scopes fun scopes a => (f a).outcome scopes next := by
  obtain ⟨events, result⟩ := x
  cases result with
  | error failure => rfl
  | ok a =>
      rw [ok_bind]
      simp only [outcome]
      cases (f a).result with
      | error failure => simp only [Scopes.replay_append, Outcome.after]
      | ok b => simp only [Scopes.replay_append, Outcome.after, List.append_assoc]

theorem attempt_congr {line : Nat} {x : Except Fault α} {next next' : Scopes → α → Outcome}
    (same : ∀ a, next scopes a = next' scopes a) :
    (attempt line x).outcome scopes next = (attempt line x).outcome scopes next' := by
  cases x with
  | error fault => rfl
  | ok a => exact congrArg (Outcome.after []) (same a)

theorem outcome_see (t : Located) (next : Scopes → Unit → Outcome) :
    (see t).outcome scopes next = (next scopes ()).after [.token t] := rfl

theorem outcome_statement (line : Nat) (next : Scopes → Unit → Outcome) :
    (emit [.statement line]).outcome scopes next =
      (next scopes ()).after [.statement line] := rfl

end Traced

theorem evaluate_cons (scopes : Scopes) (m : Mode) (t : Located) (rest : List Located) :
    evaluate scopes m (t :: rest) =
      (step scopes.current t (rest.headD t) m).outcome scopes fun scopes m =>
        evaluate scopes m rest := by
  rw [evaluate, Traced.outcome]
  cases (step scopes.current t (rest.headD t) m).result <;> rfl

namespace Scoped

variable {α β : Type} {scopes : Scopes}

/-- The outcome of a computation, and of what follows it. -/
def run (x : Scoped α) (scopes : Scopes) (next : Scopes → α → Outcome) : Outcome :=
  (x scopes).outcome scopes next

theorem run_pure (a : α) (next : Scopes → α → Outcome) :
    (pure a : Scoped α).run scopes next = next scopes a := rfl

theorem run_lift (x : Traced α) (next : Scopes → α → Outcome) :
    (liftM x : Scoped α).run scopes next = x.outcome scopes next := rfl

theorem run_bind (x : Scoped α) (f : α → Scoped β) (next : Scopes → β → Outcome) :
    (x >>= f).run scopes next = x.run scopes fun scopes a => (f a).run scopes next := by
  show ((x scopes) >>= fun a => f a (scopes.replay (x scopes).events)).outcome scopes next = _
  rw [Traced.outcome_bind]
  exact Traced.outcome_congr fun a _ => rfl

theorem run_congr {x : Scoped α} {next next' : Scopes → α → Outcome}
    (same : ∀ scopes a, next scopes a = next' scopes a) :
    x.run scopes next = x.run scopes next' :=
  Traced.outcome_congr fun a _ => same _ a

theorem run_environment (next : Scopes → Env → Outcome) :
    environment.run scopes next = next scopes scopes.current := rfl

end Scoped

namespace Descent

open Scanner Scoped Traced

/-! ### The evaluator from a scanner on -/

theorem located_token (s : Scanner) : s.located.token = s.token := rfl

/-- A step, or what is left of one. -/
abbrev Partial : Type := Env → Located → Located → Traced Mode

/-- Evaluates from a mode on, with the scanner on the token in turn. -/
def evaluateFrom (s : Scanner) (scopes : Scopes) (m : Mode) : Outcome :=
  evaluate scopes m (if s.token = .endOfFile then [s.located] else s.located :: s.tokens)

/-- Ends the step for the token in turn of the scanner, and evaluates what follows. -/
def proceed (s : Scanner) (scopes : Scopes) (x : Traced Mode) : Outcome :=
  x.outcome scopes fun scopes m =>
    if s.token = .endOfFile then ⟨[], scopes.globals, .ok ()⟩ else evaluateFrom s.read scopes m

/-- Ends the step for the token in turn. -/
def resume (s : Scanner) (scopes : Scopes) (g : Partial) : Outcome :=
  proceed s scopes (g scopes.current s.located s.read.located)

theorem evaluate_tokens (s : Scanner) (scopes : Scopes) (m : Mode) :
    evaluate scopes m s.tokens = evaluateFrom s.read scopes m := by
  rw [Scanner.tokens, evaluateFrom]

theorem evaluateFrom_eq {s : Scanner} (read : HasRead s) (scopes : Scopes) (m : Mode) :
    evaluateFrom s scopes m = resume s scopes fun env t next => step env t next m := by
  obtain ⟨s, rfl⟩ := read
  by_cases ended : s.read.token = .endOfFile
  · rw [evaluateFrom, if_pos ended, evaluate_cons, resume, proceed, read_read ended]
    refine outcome_congr fun m _ => ?_
    rw [if_pos ended, evaluate]
  · rw [evaluateFrom, if_neg ended, evaluate_cons, tokens_headD, resume, proceed]
    refine outcome_congr fun m _ => ?_
    rw [if_neg ended, evaluate_tokens]

/-- The whole step of a mode. -/
abbrev stepOf (m : Mode) : Partial := fun env t next => step env t next m

section

variable {s : Scanner} {scopes : Scopes} {α β : Type}

theorem outcome_unexpected (t : Located) (expected : Expected) (next : Scopes → α → Outcome)
    (next' : Scopes → β → Outcome) :
    (unexpected t expected : Traced α).outcome scopes next =
      (unexpected t expected : Traced β).outcome scopes next' := by
  unfold unexpected
  split <;> rfl

theorem proceed_bind (x : Traced α) (g : α → Traced Mode) :
    proceed s scopes (x >>= g) = x.outcome scopes fun scopes a => proceed s scopes (g a) :=
  outcome_bind ..

/-- After the token in turn comes the next one. -/
theorem proceed_eq (more : s.token ≠ .endOfFile) (x : Traced Mode) :
    proceed s scopes x = x.outcome scopes fun scopes m => resume s.read scopes (stepOf m) := by
  refine outcome_congr fun m _ => ?_
  rw [if_neg more, evaluateFrom_eq ⟨s, rfl⟩]

theorem proceed_see (more : s.token ≠ .endOfFile) (x : Traced Mode) :
    proceed s scopes (see s.read.located >>= fun _ => x) =
      (x.outcome scopes fun scopes m => resume s.read scopes (stepOf m)).after
        [.token s.read.located] := by
  rw [proceed_bind, outcome_see, proceed_eq more]

theorem proceed_move (more : s.token ≠ .endOfFile) (m : Mode) :
    proceed s scopes (see s.read.located >>= fun _ => pure m) =
      (resume s.read scopes (stepOf m)).after [.token s.read.located] :=
  proceed_see more (pure m)

theorem run_advance (more : s.token ≠ .endOfFile)
    (next : Scopes → Found Unit Passed s → Outcome) :
    (advance s more).run scopes next =
      (next scopes ⟨(), s.read, .read more⟩).after [.token s.read.located] := rfl

/-- A name, and the rest of the step. -/
def nameStep (t next : Located) (rest : String → Traced Mode) : Traced Mode :=
  match t.token with
  | .identifier name => see next >>= fun _ => rest name
  | _ => unexpected t .identifier

theorem proceed_name (rest : String → Traced Mode) :
    proceed s scopes (nameStep s.located s.read.located rest) =
      (identifier s).run scopes fun scopes p =>
        (rest p.value).outcome scopes fun scopes m => resume p.scanner scopes (stepOf m) := by
  rw [identifier]
  split
  · rename_i name found
    have token : s.located.token = .identifier name := found
    simp only [nameStep, token]
    rw [proceed_see (by simp [found])]
    rfl
  · rename_i other
    unfold nameStep
    split
    · rename_i name found
      exact absurd found (other name)
    · exact outcome_unexpected ..

/-- A name is read without an effect on the scopes. -/
theorem identifier_congr {next next' : Scopes → Found String Passed s → Outcome}
    (same : ∀ p, next scopes p = next' scopes p) :
    (identifier s).run scopes next = (identifier s).run scopes next' := by
  rw [identifier]
  split
  · exact congrArg (Outcome.after _) (same _)
  · exact outcome_unexpected ..

theorem proceed_expect {token : Token} {expected : Expected} (more : token ≠ .endOfFile)
    (x : Traced Mode) :
    proceed s scopes (expect s.located s.read.located token expected >>= fun _ => x) =
      (take s token expected more).run scopes fun scopes p =>
        x.outcome scopes fun scopes m => resume p.scanner scopes (stepOf m) := by
  unfold expect take
  by_cases found : s.token = token
  · rw [dif_pos found, located_token, if_pos found]
    exact proceed_see (found ▸ more) x
  · rw [dif_neg found, located_token, if_neg found, unexpected_bind]
    exact outcome_unexpected ..

end

/-! ### What is left to do -/

/-- What is left of a statement after its event. -/
def statementRest : Partial := fun env t next =>
  if t.token = .var then see next >>= fun _ => pure .declareName
  else expressionStep env t next (.expression .discard)

def lambdaStep (k : Pending .expression) : Partial := fun _ t next =>
  if t.token = .endOfFile then unexpected t .identifier
  else see next >>= fun _ => pure (.firstCapture t.line k)

/-- Adds a product to the sum before it. -/
def addendStep (v : Value Float) (k : Pending .addend) : Partial := fun _ t next =>
  match k with
  | .firstAddend k => sumStep t next v k
  | .addTo op lhs line k => attempt line (op.apply lhs v) >>= fun v => sumStep t next v k

/-- Begins the call of a value. -/
def calleeMode (name : String) (line : Nat) (v : Value Float) (k : Pending .operand) :
    Traced Mode :=
  match v.asCallable? with
  | some c => return .callee ⟨name, c, line, []⟩ k
  | none => fail (.notCallable name) line

/-- A name that is called. -/
def callStep (k : Pending .operand) : Partial := fun env t next =>
  nameStep t next fun name =>
    attempt t.line (env.lookup name) >>= fun v => calleeMode name t.line v k

/-- A number, and the mode for its value. -/
def numberStep (after : Float → Mode) : Partial := fun _ t next =>
  match t.token with
  | .number literal => do
      let x ← literalValue t literal
      see next
      return after x
  | _ => unexpected t .number

/-- Where a signed number stands: the modes after its sign and after it. -/
structure NumberFrame where
  negated : Mode
  after : Float → Mode
  step_negated : stepOf negated = numberStep fun x => after (-x)

def NumberFrame.start (f : NumberFrame) : Partial := fun env t next =>
  if t.token = .minus then see next >>= fun _ => pure f.negated else numberStep f.after env t next

/-- Where a list stands. -/
inductive ListFrame : Item → Type where
  | captures (line : Nat) (k : Pending .expression) : ListFrame .name
  | generics (call : Call) (k : Pending .operand) : ListFrame .signedNumber
  | arguments (name : String) (callee : Callable Float) (line : Nat) (k : Pending .operand) :
      ListFrame .expression

namespace ListFrame

/-- The mode after the opening token. -/
def opening : {i : Item} → ListFrame i → Mode
  | _, captures line k => .firstCapture line k
  | _, generics call k => .firstGeneric call k
  | _, arguments name callee line k => .firstArgument ⟨name, callee, line, []⟩ k

/-- The mode for the next item. -/
def mode : {i : Item} → ListFrame i → List (ItemValue i) → Mode
  | _, captures line k, names => .capture line names k
  | _, generics call k, xs => .generic call xs k
  | _, arguments name callee line k, args =>
      .expression (.expression (.argument ⟨name, callee, line, args⟩ k))

/-- What follows the list. -/
def done : {i : Item} → ListFrame i → List (ItemValue i) → Traced Mode
  | _, captures line k, names => pure (.arrow line names k)
  | _, generics call k, xs => finishGenerics call xs k
  | _, arguments name callee line k, args => finishCall ⟨name, callee, line, args⟩ k

/-- The step for the token after an item. -/
def after {i : Item} (f : ListFrame i) (sofar : List (ItemValue i)) : Partial := fun _ t next =>
  if t.token = .comma then see next >>= fun _ => pure (f.mode sofar)
  else expect t next (closing i) (.separatorOr (closing i)) >>= fun _ => f.done sofar

end ListFrame

/-- The end of a lambda. -/
def builtStep (l : Lambda) (k : Pending .expression) : Partial := fun _ t next =>
  emit [.built l.captures l.line l.poly] >>= fun _ => deliver t next (.function l.poly) k

/-- A term after its coefficient. -/
def componentRest (l : Lambda) (sign coefficient : Float) (k : Pending .expression) : Partial :=
  fun env t next => do
    match ← unknownName? env t next with
    | some name => takeVariable t next l name (sign * coefficient) k
    | none => afterComponentStep t next (← attempt t.line (l.add (sign * coefficient) 0)) k

/-- A coefficient after some of its factors. -/
def factorsStep (l : Lambda) (sign coefficient : Float) (k : Pending .expression) : Partial :=
  fun env t next =>
    match t.token.productOperator? with
    | some op => see next >>= fun _ => pure (.factor l sign op coefficient k)
    | none => componentRest l sign coefficient k env t next

/-- The product of the factors so far and one more. -/
def combine (sofar : Option (Operator × Float)) (x : Float) : Float :=
  match sofar with
  | none => x
  | some (op, lhs) => op.onScalars lhs x

def powerStep (l : Lambda) (coefficient : Float) (k : Pending .expression) : Partial :=
  fun _ t next =>
    match t.token with
    | .identifier name => takeVariable t next l name coefficient k
    | _ => unexpected t .identifier

def exponentRest (line : Nat) (l : Lambda) (coefficient : Float) (k : Pending .expression) :
    Partial := fun _ t next =>
  if t.token = .caret then see next >>= fun _ => pure (.openExponent l coefficient line k)
  else attempt line (l.add coefficient 1) >>= fun l => afterComponentStep t next l k

/-- Where a rule stands in an evaluation: what the evaluator does where the rule begins, and
what it does with the result where the rule ends. -/
inductive Continues : (r : Rule) → Partial → (r.Result → Partial) → Prop where
  | statements : Continues .statements (stepOf .statement) fun _ => stepOf .statement
  | statement : Continues .statement statementRest fun _ _ t next =>
      expect t next .terminator (.exactly .terminator) >>= fun _ => pure .statement
  | expression (k) : Continues .expression (stepOf (.expression k)) fun v _ t next =>
      deliver t next v k
  | lambda (k) : Continues .lambda (lambdaStep k) fun v _ t next => deliver t next v k
  | term (k) : Continues .term (stepOf (.operand (.firstOperand k))) fun v _ t next =>
      termStep t next v k
  | sum (v k) : Continues (.sum v) (fun _ t next => sumStep t next v k) fun v _ t next =>
      termStep t next v k
  | addend (k) : Continues .addend (stepOf (.operand (.firstFactor k))) fun v => addendStep v k
  | product (v k) : Continues (.product v) (fun _ t next => productStep t next v k) fun v =>
      addendStep v k
  | operand (k) : Continues .operand (stepOf (.operand k)) fun v => stepOf (.value v k)
  | number (f : NumberFrame) : Continues .signedNumber f.start fun x => stepOf (f.after x)
  | call (k) : Continues .call (callStep k) fun v => stepOf (.value v k)
  | generics (name callee line k) : Continues (.generics callee line)
      (stepOf (.callee ⟨name, callee, line, []⟩ k)) fun c =>
        stepOf (.openArguments ⟨name, c, line, []⟩ k)
  | list {i} (f : ListFrame i) : Continues (.list i) (stepOf f.opening) fun xs env t next =>
      f.done xs >>= step env t next
  | items {i} (f : ListFrame i) (sofar) : Continues (.items i sofar) (stepOf (f.mode sofar))
      fun xs env t next => f.done xs >>= step env t next
  | item {i} (f : ListFrame i) (sofar) : Continues (.item i) (stepOf (f.mode sofar)) fun x =>
      f.after (sofar ++ [x])
  | polynomial (l k) : Continues (.polynomial l) (stepOf (.body l k)) fun l => builtStep l k
  | components (l k) : Continues (.components l) (stepOf (.afterComponent l k)) fun l =>
      builtStep l k
  | component (l sign k) : Continues (.component l sign) (stepOf (.component l sign k)) fun l =>
      stepOf (.afterComponent l k)
  | coefficient (l sign k) : Continues .coefficient
      (fun env t next => factorStep env t next l sign none k) fun x => componentRest l sign x k
  | factors (l sign x k) : Continues (.factors x) (factorsStep l sign x k) fun x =>
      componentRest l sign x k
  | factor (l sign sofar k) : Continues .factor
      (fun env t next => factorStep env t next l sign sofar k) fun x =>
        factorsStep l sign (combine sofar x) k
  | power (l c k) : Continues (.power l c) (powerStep l c k) fun l => stepOf (.afterComponent l k)
  | exponent (line l c k) : Continues (.exponent line) (exponentRest line l c k)
      fun degree _ t next => attempt line (l.add c degree) >>= fun l =>
        afterComponentStep t next l k

/-- The evaluator does what the rule does, and goes on with its result. -/
def Simulates {r : Rule} {s : Scanner} (x : Scoped (Found r.Result r.Reach s)) : Prop :=
  ∀ {start finish}, Continues r start finish → ∀ scopes,
    resume s scopes start = x.run scopes fun scopes found =>
      resume found.scanner scopes (finish found.value)

/-- All calls are simulated. -/
def Simulated {r : Rule} {s : Scanner} (call : Calls r s) : Prop :=
  ∀ r' s' (h : Before r' s' r s), Simulates (call r' s' h)

end Descent

end PolyCalc
