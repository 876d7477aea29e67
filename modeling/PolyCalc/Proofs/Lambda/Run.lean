import PolyCalc.Proofs.Lambda.Steps

/-!
The evaluator on printed lambdas.

The tokens of a term are read one by one, and lead from the place before the term to the
place after it with one more term collected (`Monomial.reads`). By induction along the
terms, a lambda leads to the polynomial that it denotes, wherever it stands and whatever
is bound around it: the captured name has no value inside, so it may be that of a constant
or a builtin.
-/

namespace PolyCalc

/-! ### Terms -/

section

variable {scopes : Scopes} {x : Name} {next : Located} {ts rest : List Located}
  {done : List (Nat × Float)} {l : Lambda} {c : Float} {k : Pending .expression}

/-- An exponent, or none, ends the term. -/
theorem exponent_reads (scopes : Scopes) (c : Float) (k : Pending .expression)
    (rest : List Located) (e : Option Exponent) (h : l.Sums x.text done)
    (spelled : ts.map Located.token = exponentTokens e) (ends : next.token.endsMonomial = true) :
    ∃ l', l'.Sums x.text (done ++ [(exponentPower e, c)]) ∧
      shown scopes (.afterVariable l c k) (ts ++ next :: rest) =
        shown scopes (.afterComponent l' k) (next :: rest) := by
  obtain ⟨l', added, sums⟩ := h.add c (exponentPower e)
  refine ⟨l', sums, ?_⟩
  cases e with
  | none =>
      obtain rfl := List.map_eq_nil_iff.mp spelled
      exact shown_linear ends added
  | some e =>
      obtain ⟨caret, us, rfl, isCaret, more⟩ := List.map_eq_cons_iff.mp spelled
      obtain ⟨left, us, rfl, isLeft, more⟩ := List.map_eq_cons_iff.mp more
      obtain ⟨number, us, rfl, isNumber, more⟩ := List.map_eq_cons_iff.mp more
      obtain ⟨right, rfl, isRight⟩ := List.map_eq_singleton_iff.mp more
      calc shown scopes (.afterVariable l c k) (caret :: left :: number :: right :: next :: rest)
        _ = shown scopes (.openExponent l c caret.line k)
              (left :: number :: right :: next :: rest) := shown_caret isCaret
        _ = shown scopes (.operand (.firstOperand (.exponent l c caret.line k)))
              (number :: right :: next :: rest) := shown_openExponent isLeft
        _ = shown scopes (.value (.number e.literal.value)
              (.firstOperand (.exponent l c caret.line k))) (right :: next :: rest) :=
            shown_number isNumber
        _ = shown scopes (.afterComponent l' k) (next :: rest) :=
            shown_closeExponent e isRight added

/-- No name is called before what may follow it in a term. -/
theorem exponent_notCalled (rest : List Located) {e : Option Exponent}
    (spelled : ts.map Located.token = exponentTokens e) (ends : next.token.endsMonomial = true) :
    ∃ u us, ts ++ next :: rest = u :: us ∧ u.token.opensCall = false := by
  cases e with
  | none =>
      obtain rfl := List.map_eq_nil_iff.mp spelled
      exact ⟨next, rest, rfl, (Token.endsMonomial_not ends).2.1⟩
  | some e =>
      obtain ⟨caret, us, rfl, isCaret, -⟩ := List.map_eq_cons_iff.mp spelled
      exact ⟨caret, us ++ next :: rest, rfl, by rw [isCaret]; rfl⟩

/-- The variable and its exponent end the term. -/
theorem Mode.Awaits.reads {m : Mode} {e : Option Exponent} (awaits : m.Awaits l k c)
    (h : l.Sums x.text done) (unbound : scopes.current.isUnbound x.text = true)
    (spelled : ts.map Located.token = .identifier x.text :: exponentTokens e)
    (ends : next.token.endsMonomial = true) :
    ∃ l', l'.Sums x.text (done ++ [(exponentPower e, c)]) ∧
      shown scopes m (ts ++ next :: rest) =
        shown scopes (.afterComponent l' k) (next :: rest) := by
  obtain ⟨t, us, rfl, isName, more⟩ := List.map_eq_cons_iff.mp spelled
  obtain ⟨l', used, sums⟩ := h.use
  obtain ⟨l'', sums, ended⟩ := exponent_reads scopes c k rest e sums more ends
  obtain ⟨u, after, same, notCalled⟩ := exponent_notCalled rest more ends
  refine ⟨l'', sums, ?_⟩
  rw [same] at ended
  rw [List.cons_append, same]
  exact (shown_variable awaits ⟨isName, notCalled, unbound⟩ used).trans ended

theorem Operator.productOperator?_token {op : Operator} (rank : op.rank = 2) :
    op.token.productOperator? = some op := by
  cases op <;> simp [Operator.rank] at rank <;> rfl

/-- Each factor is multiplied into those before it. -/
theorem factors_reads (scopes : Scopes) (l : Lambda) (sign : Float) (k : Pending .expression)
    (rest : List Located) (fs : List Factor)
    (spelled : ts.map Located.token = fs.flatMap Factor.tokens) (v : Float)
    (sofar : Option (Operator × Float)) (line : Nat) :
    ∃ v' sofar' line',
      withFactor sofar' v' =
        fs.foldl (fun x f => f.op.onScalars x f.literal.value) (withFactor sofar v) ∧
      shown scopes (.value (.number v) (.coefficient l sign sofar line k)) (ts ++ rest) =
        shown scopes (.value (.number v') (.coefficient l sign sofar' line' k)) rest := by
  -- the last literal is not multiplied in before the token after it is seen
  induction fs generalizing ts v sofar line with
  | nil =>
      obtain rfl := List.map_eq_nil_iff.mp spelled
      exact ⟨v, sofar, line, rfl, rfl⟩
  | cons f fs ih =>
      obtain ⟨o, us, rfl, isOperator, more⟩ := List.map_eq_cons_iff.mp spelled
      obtain ⟨number, us, rfl, isNumber, more⟩ := List.map_eq_cons_iff.mp more
      have product : o.token.productOperator? = some f.op := by
        rw [isOperator]
        exact Operator.productOperator?_token f.isProduct
      obtain ⟨v', sofar', line', value, ended⟩ :=
        ih more f.literal.value (some (f.op, withFactor sofar v)) number.line
      exact ⟨v', sofar', line', value,
        (shown_operator product).trans ((shown_factor isNumber).trans ended)⟩

/-- After its last literal, the mode holds the value of the coefficient. -/
theorem Coefficient.reads (scopes : Scopes) (l : Lambda) (sign : Float) (k : Pending .expression)
    (rest : List Located) (coefficient : Coefficient)
    (spelled : ts.map Located.token = coefficient.tokens) :
    ∃ v sofar line, withFactor sofar v = coefficient.value ∧
      shown scopes (.component l sign k) (ts ++ rest) =
        shown scopes (.value (.number v) (.coefficient l sign sofar line k)) rest := by
  obtain ⟨t, us, rfl, isNumber, more⟩ := List.map_eq_cons_iff.mp spelled
  obtain ⟨v, sofar, line, value, ended⟩ := factors_reads scopes l sign k rest coefficient.more more
    coefficient.first.value none t.line
  exact ⟨v, sofar, line, value, (shown_firstFactor isNumber).trans ended⟩

/-- The tokens of a term lead past it, with the term collected. -/
theorem Monomial.reads (scopes : Scopes) (sign : Float) (k : Pending .expression)
    (rest : List Located) (m : Monomial) (h : l.Sums x.text done)
    (unbound : scopes.current.isUnbound x.text = true)
    (spelled : ts.map Located.token = m.tokens x) (ends : next.token.endsMonomial = true) :
    ∃ l', l'.Sums x.text (done ++ [(m.degree, sign * m.coefficient)]) ∧
      shown scopes (.component l sign k) (ts ++ next :: rest) =
        shown scopes (.afterComponent l' k) (next :: rest) := by
  cases m with
  | constant c =>
      obtain ⟨v, sofar, line, value, read⟩ := c.reads scopes l sign k (next :: rest) spelled
      obtain ⟨l', added, sums⟩ := h.add (sign * c.value) 0
      rw [← value] at added
      exact ⟨l', sums, read.trans (shown_constant ends added)⟩
  | power e => exact Mode.Awaits.component.reads h unbound spelled ends
  | scaled c star e =>
      obtain ⟨us, power, rfl, before, power_spelled⟩ := List.map_eq_append_iff.mp spelled
      obtain ⟨cs, stars, rfl, c_spelled, star_spelled⟩ := List.map_eq_append_iff.mp before
      obtain ⟨v, sofar, line, value, read⟩ := c.reads scopes l sign k
        (stars ++ (power ++ next :: rest)) c_spelled
      simp only [Monomial.coefficient, Monomial.degree, ← value]
      rw [List.append_assoc, List.append_assoc, read]
      cases star with
      | false =>
          obtain rfl := List.map_eq_nil_iff.mp star_spelled
          exact Mode.Awaits.coefficient.reads h unbound power_spelled ends
      | true =>
          obtain ⟨o, rfl, isStar⟩ := List.map_eq_singleton_iff.mp star_spelled
          have product : o.token.productOperator? = some .multiply := by rw [isStar]; rfl
          rw [List.singleton_append, shown_operator product]
          exact Mode.Awaits.factor.reads h unbound power_spelled ends

/-! ### Lambdas -/

/-- After a term comes the sign of the next one, or the end of the lambda. -/
theorem terms_follow (rest : List Located) {terms : List Term}
    (spelled : ts.map Located.token = terms.flatMap (Term.tokens x))
    (closes : next.token.closes = true) :
    ∃ u us, ts ++ next :: rest = u :: us ∧ u.token.endsMonomial = true := by
  cases terms with
  | nil =>
      obtain rfl := List.map_eq_nil_iff.mp spelled
      exact ⟨next, rest, rfl, by rw [Token.endsMonomial, closes, Bool.or_true]⟩
  | cons t terms =>
      obtain ⟨sign, us, rfl, isSign, -⟩ := List.map_eq_cons_iff.mp spelled
      refine ⟨sign, us ++ next :: rest, rfl, ?_⟩
      rw [isSign]
      split <;> rfl

/-- The sign of a term is read before it. -/
theorem Term.sign_reads {t : Term} {o : Located}
    (found : o.token = if t.negative then .minus else .plus) :
    shown scopes (.afterComponent l k) (o :: rest) = shown scopes (.component l t.sign k) rest := by
  unfold Term.sign
  cases negative : t.negative with
  | true =>
      have minus : o.token.sumOperator? = some .subtract := by rw [found, negative]; rfl
      exact shown_sign minus
  | false =>
      have plus : o.token.sumOperator? = some .add := by rw [found, negative]; rfl
      exact shown_sign plus

/-- By induction along the terms, all of them are collected. -/
theorem terms_reads (scopes : Scopes) (k : Pending .expression) (rest : List Located)
    (terms : List Term) (h : l.Sums x.text done)
    (unbound : scopes.current.isUnbound x.text = true)
    (spelled : ts.map Located.token = terms.flatMap (Term.tokens x))
    (closes : next.token.closes = true) :
    ∃ l', l'.Sums x.text (done ++ terms.map Term.entry) ∧
      shown scopes (.afterComponent l k) (ts ++ next :: rest) =
        shown scopes (.afterComponent l' k) (next :: rest) := by
  induction terms generalizing l done ts with
  | nil =>
      obtain rfl := List.map_eq_nil_iff.mp spelled
      exact ⟨l, by rwa [List.map_nil, List.append_nil], rfl⟩
  | cons t terms ih =>
      obtain ⟨sign, us, rfl, isSign, more⟩ := List.map_eq_cons_iff.mp spelled
      obtain ⟨ms, later, rfl, monomial, more⟩ := List.map_eq_append_iff.mp more
      obtain ⟨u, after, same, ends⟩ := terms_follow rest more closes
      obtain ⟨l', sums, read⟩ := t.monomial.reads scopes t.sign k after h unbound monomial ends
      obtain ⟨l'', sums, ended⟩ := ih sums more
      rw [same] at ended
      rw [List.append_assoc] at sums
      refine ⟨l'', sums, ?_⟩
      rw [List.cons_append, List.append_assoc, same]
      exact (Term.sign_reads isSign).trans (read.trans ended)

/-- No term begins with a minus sign of its own. -/
theorem Monomial.begins (x : Name) (m : Monomial) :
    ∃ t ts, m.tokens x = t :: ts ∧ t ≠ .minus := by
  cases m with
  | constant c => exact ⟨_, _, rfl, nofun⟩
  | power e => exact ⟨_, _, rfl, nofun⟩
  | scaled c star e => exact ⟨_, _, rfl, nofun⟩

/-- The first term has its sign only if it is negative. -/
theorem Term.first_reads (t : Term) {signs ms : List Located}
    (sign : signs.map Located.token = if t.negative then [.minus] else [])
    (monomial : ms.map Located.token = t.monomial.tokens x) :
    shown scopes (.body l k) (signs ++ (ms ++ rest)) =
      shown scopes (.component l t.sign k) (ms ++ rest) := by
  unfold Term.sign
  cases negative : t.negative with
  | true =>
      rw [negative] at sign
      obtain ⟨o, rfl, isMinus⟩ := List.map_eq_singleton_iff.mp sign
      exact shown_bodyMinus isMinus
  | false =>
      rw [negative] at sign
      obtain rfl := List.map_eq_nil_iff.mp sign
      obtain ⟨token, tokens, begins, notMinus⟩ := t.monomial.begins x
      rw [begins] at monomial
      obtain ⟨u, us, rfl, rfl, -⟩ := List.map_eq_cons_iff.mp monomial
      exact shown_body notMinus

/-- The tokens of a lambda are read as the polynomial that it denotes, wherever they
stand. -/
theorem Formula.reads (f : Formula) (scopes : Scopes) (k : Pending .expression)
    (rest : List Located) (spelled : ts.map Located.token = f.tokens)
    (closes : next.token.closes = true) :
    shown scopes (.expression k) (ts ++ next :: rest) =
      shown scopes (.value (.function f.poly) (.firstOperand (.whole k))) (next :: rest) := by
  obtain ⟨us, later, rfl, before, more⟩ := List.map_eq_append_iff.mp spelled
  obtain ⟨us, ms, rfl, before, monomial⟩ := List.map_eq_append_iff.mp before
  obtain ⟨us, signs, rfl, before, sign⟩ := List.map_eq_append_iff.mp before
  obtain ⟨left, us, rfl, isLeft, before⟩ := List.map_eq_cons_iff.mp before
  obtain ⟨name, us, rfl, isName, before⟩ := List.map_eq_cons_iff.mp before
  obtain ⟨right, us, rfl, isRight, before⟩ := List.map_eq_cons_iff.mp before
  obtain ⟨arrow, rfl, isArrow⟩ := List.map_eq_singleton_iff.mp before
  let x := f.unknown.text
  -- whatever the name stands for outside, it has no value in the body
  have unbound : (scopes.enter [x]).current.isUnbound x = true := by
    rw [Env.isUnbound_eq_true]
    exact (Env.get_captures scopes.current [x] x).trans (if_pos (List.mem_singleton_self x))
  obtain ⟨u, after, same, ends⟩ := terms_follow rest more closes
  obtain ⟨l, sums, first⟩ := f.first.monomial.reads (scopes.enter [x]) f.first.sign k after
    (Lambda.Sums.start x [x] left.line) unbound monomial ends
  obtain ⟨l', sums, ended⟩ := terms_reads (scopes.enter [x]) k rest f.more sums unbound more closes
  rw [← same] at first
  have header : shown scopes (.expression k)
      (left :: name :: right :: arrow :: (signs ++ (ms ++ (later ++ next :: rest)))) =
      shown (scopes.enter [x]) (.body (.start [x] left.line) k)
        (signs ++ (ms ++ (later ++ next :: rest))) :=
    (shown_captureBegin isLeft).trans <| (shown_firstCapture isName).trans <|
      (shown_captureEnd isRight).trans (shown_arrow isArrow)
  calc shown scopes (.expression k)
        (((([left, name, right, arrow] ++ signs) ++ ms) ++ later) ++ next :: rest)
    _ = shown scopes (.expression k)
          (left :: name :: right :: arrow :: (signs ++ (ms ++ (later ++ next :: rest)))) := by
        simp only [List.cons_append, List.nil_append, List.append_assoc]
    _ = shown (scopes.enter [x]) (.component (.start [x] left.line) f.first.sign k)
          (ms ++ (later ++ next :: rest)) := header.trans (f.first.first_reads sign monomial)
    _ = shown (scopes.enter [x]) (.afterComponent l' k) (next :: rest) := first.trans ended
    _ = shown scopes (.value (.function l'.poly) (.firstOperand (.whole k))) (next :: rest) :=
        shown_built [x] closes
    _ = shown scopes (.value (.function f.poly) (.firstOperand (.whole k))) (next :: rest) := by
        rw [Lambda.Sums.poly (f := f) sums]

end

/-! ### Declarations of lambdas -/

/-- A program that is executed to its end without printing. -/
theorem report_of_resume {source : String} {env env' : Env}
    (executed : resume .statement (scan source) ⟨env, []⟩ = (.ok (), ⟨env', []⟩)) :
    (program env source).report = ⟨[], env', .ok ()⟩ := by
  rw [program_report]
  have same : ((evaluate ⟨env, []⟩ .statement (scan source)).report.result.mapError Failure.fault,
      World.mk (evaluate ⟨env, []⟩ .statement (scan source)).report.env
        (evaluate ⟨env, []⟩ .statement (scan source)).report.printed) = (.ok (), ⟨env', []⟩) :=
    executed
  generalize (evaluate ⟨env, []⟩ .statement (scan source)).report = r at same ⊢
  obtain ⟨printed, final, result⟩ := r
  cases result with
  | ok =>
      cases same
      rfl
  | error failure => cases same

theorem Exec.checkNew_bind {name : String} {w : World} (fresh : w.env.contains name = false)
    (x : Exec Unit) : (checkNew name >>= fun _ => x) w = x w := by
  show ((if w.env.contains name then throw (.redefinedName name) else pure () : Exec Unit) >>=
    fun _ => x) w = x w
  rw [fresh]
  rfl

namespace Formula

/-- A declaration of a name with the lambda as its value. -/
def declaration (f : Formula) (name : Name) : List Token :=
  .var :: .identifier name.text :: .assign :: f.tokens ++ [.terminator]

theorem scan_declaration (f : Formula) (name : Name) :
    (scan (spaced (f.declaration name))).map Located.token =
      f.declaration name ++ [.endOfFile] := by
  refine scan_spaced fun t member => Token.Legible.reads ?_
  revert t
  simp only [declaration, List.cons_append, List.forall_mem_cons, List.forall_mem_append]
  exact ⟨trivial, name.isName, trivial, f.legible, trivial, by simp⟩

/-- A name that is declared with a lambda is bound to its polynomial. -/
theorem program_declaration (f : Formula) (name : Name) {env : Env} {source : String}
    (written : (scan source).map Located.token = f.declaration name ++ [.endOfFile])
    (fresh : env.contains name.text = false) :
    (program env source).report = ⟨[], env.define name.text (.function f.poly), .ok ()⟩ := by
  obtain ⟨us, last, scanned, spelled, closed⟩ := List.map_eq_append_iff.mp written
  obtain ⟨last, rfl, ended⟩ := List.map_eq_singleton_iff.mp closed
  obtain ⟨var, us, rfl, isVar, more⟩ := List.map_eq_cons_iff.mp spelled
  obtain ⟨named, us, rfl, isName, more⟩ := List.map_eq_cons_iff.mp more
  obtain ⟨sign, us, rfl, isSign, more⟩ := List.map_eq_cons_iff.mp more
  obtain ⟨body, close, rfl, inside, closing⟩ := List.map_eq_append_iff.mp more
  obtain ⟨close, rfl, closes⟩ := List.map_eq_singleton_iff.mp closing
  have read (k : Pending .expression) : resume (.expression k) (body ++ [close, last]) =
      resume (.value (.function f.poly) (.firstOperand (.whole k))) [close, last] :=
    congrArg Exec.ofReport <| funext fun env =>
      f.reads ⟨env, []⟩ k [last] inside (by rw [closes]; rfl)
  have executed : resume .statement (scan source) =
      Exec.checkNew name.text >>= fun _ => Exec.define name.text (.function f.poly) :=
    calc resume .statement (scan source)
      _ = resume .statement (var :: named :: sign :: (body ++ [close, last])) := by
          rw [scanned, List.append_cons body close [last]]
          rfl
      _ = Exec.checkNew name.text >>= fun _ => Exec.define name.text (.function f.poly) >>= fun _ =>
            resume .statement [last] := by
          rw [resume_var isVar isName isSign, read, resume_declare closes]
      _ = Exec.checkNew name.text >>= fun _ => Exec.define name.text (.function f.poly) := by
          rw [resume_finish ended]
          rfl
  apply report_of_resume
  rw [executed]
  exact Exec.checkNew_bind fresh _

/-- A lambda denotes the sum of its terms. The polynomial has a coefficient for every power
up to the largest one, each the sum of the terms of its power from left to right, and the
lambda evaluates to it: in every scope, wherever an expression may stand, and in every text
of a declaration. -/
theorem denotes_sum (f : Formula) :
    f.poly.size = 1 + f.degree ∧
    (∀ power ≤ f.degree, f.poly.coefficients[power]? =
      some (((f.terms.filter fun t => t.degree = power).map Term.coefficient).foldl
        (· + ·) 0.0)) ∧
    (∀ scopes k ts next rest, ts.map Located.token = f.tokens → next.token.closes = true →
      (evaluate scopes (.expression k) (ts ++ next :: rest)).report =
        (evaluate scopes (.value (.function f.poly) (.firstOperand (.whole k)))
          (next :: rest)).report) ∧
    ∀ (name : Name) (env : Env) (source : String),
      source = spaced (f.declaration name) ∨
        (scan source).map Located.token = f.declaration name ++ [.endOfFile] →
      env.contains name.text = false →
      (program env source).report = ⟨[], env.define name.text (.function f.poly), .ok ()⟩ := by
  refine ⟨f.size_poly, fun power inside => f.coeff_poly inside, ?_, ?_⟩
  · intro scopes k ts next rest spelled closes
    exact f.reads scopes k rest spelled closes
  · rintro name env source (rfl | written) fresh
    · exact f.program_declaration name (f.scan_declaration name) fresh
    · exact f.program_declaration name written fresh

/-- A literal of one digit. -/
def digit (c : Char) (isDigit : c.isDigit = true) : Literal where
  text := String.singleton c
  isLiteral := .inl (by rw [String.toList_singleton]; exact ⟨nofun, by simpa using isDigit⟩)

/-- The exponent `^(2)`. -/
def square : Exponent := ⟨digit '2' rfl, 2, by decide +kernel, by decide⟩

/-- The lambda `[e] -> -3 * 2 e^(2) + e - 7 % 4 * e^(2) + 1 / 2`. Its variable has the name of a
constant, and the power 2 comes twice. -/
def shadowing : Formula where
  unknown := ⟨"e", by decide, 'e', [], rfl, by decide, nofun⟩
  first := ⟨true, .scaled ⟨digit '3' rfl, [⟨.multiply, rfl, digit '2' rfl⟩]⟩ false (some square)⟩
  more :=
    [⟨false, .power none⟩,
      ⟨true, .scaled ⟨digit '7' rfl, [⟨.modulo, rfl, digit '4' rfl⟩]⟩ true (some square)⟩,
      ⟨false, .constant ⟨digit '1' rfl, [⟨.divide, rfl, digit '2' rfl⟩]⟩⟩]

theorem denotes_sum_shadowing :
    Env.preloaded.contains "e" = true ∧ shadowing.poly = ⟨[0.5, 1.0, -9.0]⟩ ∧
    (program .preloaded "var f := [e] -> -3*2e^(2) + e - 7%4*e^(2) + 1/2;").report =
      ⟨[], Env.preloaded.define "f" (.function shadowing.poly), .ok ()⟩ := by
  refine ⟨by decide +kernel, congrArg Poly.mk (by decide +kernel), ?_⟩
  let f : Name := ⟨"f", by decide, 'f', [], rfl, by decide, nofun⟩
  exact shadowing.denotes_sum.2.2.2 f .preloaded _ (.inr (by decide +kernel)) (by decide +kernel)

end Formula

end PolyCalc
