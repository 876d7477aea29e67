import PolyCalc.Proofs.Tree.Steps

/-!
The evaluator on printed trees.

On the tokens of a tree, the evaluator does what the evaluation of the tree does
and then goes on with its value (`Expr.reads`). What may be pending before a tree
and what may follow it depends on how tight it is; this is the invariant that
the induction on trees carries. By induction on statements, a program is
evaluated from its text as from its tree (`program_programText`).
-/

namespace PolyCalc

open Exec

/-! ### How trees begin -/

/-- The tokens that trees begin with. -/
def Token.begins : Token → Bool
  | .number _ | .minus | .identifier _ | .leftParen => true
  | _ => false

/-- A tree other than a reassignment does not begin like one. -/
theorem Expr.begins (e : Expr) :
    ∃ t ts, e.tokens = t :: ts ∧ t.begins = true ∧
      (1 ≤ e.rank → ∀ name, t = .identifier name → ts.head? ≠ some .assign) := by
  induction e using Expr.inductionOn with
  | number n =>
      rw [Expr.tokens, Signed.tokens]
      split
      · exact ⟨_, _, rfl, rfl, by simp⟩
      · exact ⟨_, _, rfl, rfl, by simp⟩
  | name n => exact ⟨_, _, rfl, rfl, by simp⟩
  | binary op lhs rhs left right =>
      have positive : 1 ≤ op.rank := by cases op <;> decide
      have notAssign : op.token ≠ .assign := by cases op <;> decide
      rw [Expr.tokens, enclosed]
      split
      · exact ⟨_, _, rfl, rfl, by simp⟩
      · rename_i bare
        obtain ⟨t, ts, same, begins, plain⟩ := left
        have loose : 1 ≤ lhs.rank := by simp at bare; omega
        refine ⟨t, _, by rw [same, List.cons_append], begins, fun _ name named => ?_⟩
        have before := plain loose name named
        cases ts with
        | nil => simpa using notAssign
        | cons next ts => simpa using before
  | call f generics args each =>
      refine ⟨_, _, rfl, rfl, fun _ _ _ => ?_⟩
      cases generics <;> simp [genericTokens]
  | assign target value ih => exact ⟨_, _, rfl, rfl, by simp [Expr.rank]⟩

/-! ### Trees -/

/-- The tokens after an operand: its name is not called. -/
def Token.endsOperand (t : Token) : Bool := !t.opensCall

/-- The tokens after a term: its last operand is not multiplied. -/
def Token.endsTerm (t : Token) : Bool := !t.opensCall && t.productOperator?.isNone

/-- From the first mode on, the tokens are read as the execution; what follows them
goes on with its result. -/
def Reading {α : Type} (tokens : List Token) (x : Exec α) (m : Mode) (m' : α → Mode)
    (follow : Token → Bool) : Prop :=
  ∀ ts next rest, ts.map Located.token = tokens → follow next.token = true →
    resume m (ts ++ next :: rest) = x >>= fun a => resume (m' a) (next :: rest)

/-- The tokens of the tree are read as its evaluation. The looser the tree is, the
less may be pending before it and the less may follow it. -/
structure Expr.Reads (e : Expr) : Prop where
  whole : ∀ targets g, Reading e.tokens e.eval (.expression (.into targets g))
    (.value · (.firstOperand (.whole (.into targets g)))) Token.closes
  term : 1 ≤ e.rank → ∀ k, Reading e.tokens e.eval (.operand (.firstOperand k))
    (.value · (.firstOperand k)) Token.endsTerm
  addend : 2 ≤ e.rank → ∀ k, Reading e.tokens e.eval (.operand (.firstFactor k))
    (.value · (.firstFactor k)) Token.endsOperand
  operand : 3 ≤ e.rank → ∀ k, Reading e.tokens e.eval (.operand k) (.value · k) Token.endsOperand

theorem Token.endsTerm_of_closes {t : Token} (h : t.closes = true) : t.endsTerm = true := by
  obtain ⟨opens, product, -⟩ := Token.closes_not_operator h
  simp [Token.endsTerm, opens, product]

theorem Token.endsOperand_of_endsTerm {t : Token} (h : t.endsTerm = true) :
    t.endsOperand = true := by
  simp [Token.endsTerm, Token.endsOperand] at h ⊢
  exact h.1

namespace Expr.Reads

variable {e : Expr}

/-- A term is an expression. -/
theorem whole_of_term (loose : 1 ≤ e.rank)
    (term : ∀ k, Reading e.tokens e.eval (.operand (.firstOperand k))
      (.value · (.firstOperand k)) Token.endsTerm) (targets : List String) (g : Pending .goal) :
    Reading e.tokens e.eval (.expression (.into targets g))
      (.value · (.firstOperand (.whole (.into targets g)))) Token.closes := by
  intro ts close rest spelled closing
  rw [← term _ ts close rest spelled (Token.endsTerm_of_closes closing)]
  obtain ⟨first, more, same, begins, plain⟩ := e.begins
  rw [same] at spelled
  obtain ⟨t, us, rfl, rfl, later⟩ := List.map_eq_cons_iff.mp spelled
  refine resume_term (fun lambda => ?_) fun name named => ?_
  · rw [lambda] at begins
    cases begins
  · have before := plain loose name named
    cases us with
    | nil =>
        intro assign
        have isAssign : close.token = .assign := assign
        rw [isAssign] at closing
        cases closing
    | cons u us =>
        intro isAssign
        rw [← later] at before
        exact before (congrArg some isAssign)

/-- It is enough to read a sum as a term. -/
theorem ofTerm (rank : e.rank = 1)
    (term : ∀ k, Reading e.tokens e.eval (.operand (.firstOperand k))
      (.value · (.firstOperand k)) Token.endsTerm) : e.Reads where
  whole := whole_of_term (by omega) term
  term _ := term
  addend tight := by omega
  operand tight := by omega

/-- It is enough to read a product as an addend. -/
theorem ofAddend (rank : e.rank = 2)
    (addend : ∀ k, Reading e.tokens e.eval (.operand (.firstFactor k))
      (.value · (.firstFactor k)) Token.endsOperand) : e.Reads where
  whole := whole_of_term (by omega) fun k ts next rest spelled follow =>
    addend (.firstAddend k) ts next rest spelled (Token.endsOperand_of_endsTerm follow)
  term _ k ts next rest spelled follow :=
    addend (.firstAddend k) ts next rest spelled (Token.endsOperand_of_endsTerm follow)
  addend _ := addend
  operand tight := by omega

/-- It is enough to read an operand as such, whatever is pending. -/
theorem ofOperand (rank : e.rank = 3)
    (operand : ∀ k, Reading e.tokens e.eval (.operand k) (.value · k) Token.endsOperand) :
    e.Reads where
  whole := whole_of_term (by omega) fun k ts next rest spelled follow =>
    operand (.firstOperand k) ts next rest spelled (Token.endsOperand_of_endsTerm follow)
  term _ k ts next rest spelled follow :=
    operand (.firstOperand k) ts next rest spelled (Token.endsOperand_of_endsTerm follow)
  addend _ k := operand (.firstFactor k)
  operand _ := operand

/-- Any tree is an operand in parentheses. -/
theorem grouped (h : e.Reads) (k : Pending .operand) :
    Reading (.leftParen :: e.tokens ++ [.rightParen]) e.eval (.operand k) (.value · k)
      fun _ => true := by
  intro ts next rest spelled _
  obtain ⟨left, us, rfl, opens, more⟩ := List.map_eq_cons_iff.mp spelled
  obtain ⟨inside, last, rfl, written, closed⟩ := List.map_eq_append_iff.mp more
  obtain ⟨right, rfl, closes⟩ := List.map_eq_singleton_iff.mp closed
  have read := h.whole [] (.group k) inside right (next :: rest) written (by rw [closes]; rfl)
  rw [List.cons_append, List.append_assoc, resume_leftParen opens]
  exact read.trans (bind_congr fun v => resume_rightParen closes)

/-- A tree is an operand with parentheses if it is not one without them. -/
theorem enclosed (h : e.Reads) (needed : Bool) {k : Pending .operand} {follow : Token → Bool}
    (bare : needed = false → Reading e.tokens e.eval (.operand k) (.value · k) follow) :
    Reading (enclosed needed e.tokens) e.eval (.operand k) (.value · k) follow := by
  cases needed with
  | false => exact bare rfl
  | true => exact fun ts next rest spelled _ => h.grouped k ts next rest spelled rfl

end Expr.Reads

/-! One lemma for each kind of tree. -/

theorem Signed.reads (n : Signed) : (Expr.number n).Reads := by
  refine .ofOperand rfl fun k ts next rest spelled _ => ?_
  obtain ⟨negative, l⟩ := n
  cases negative with
  | true =>
      obtain ⟨sign, us, rfl, isMinus, more⟩ := List.map_eq_cons_iff.mp spelled
      obtain ⟨t, rfl, found⟩ := List.map_eq_singleton_iff.mp more
      exact (resume_minus isMinus).trans (resume_negated found)
  | false =>
      obtain ⟨t, rfl, found⟩ := List.map_eq_singleton_iff.mp spelled
      exact resume_number found

theorem Name.reads (n : Name) : (Expr.name n).Reads := by
  refine .ofOperand rfl fun k ts next rest spelled follow => ?_
  obtain ⟨t, rfl, found⟩ := List.map_eq_singleton_iff.mp spelled
  exact resume_name found (by simpa [Token.endsOperand] using follow)

/-- The left operand is read up to the operator, which keeps it for the right one. The
right one is a single operand or stands in parentheses. -/
theorem Operator.reads_product {op : Operator} (rank : op.rank = 2) {lhs rhs : Expr}
    (left : lhs.Reads) (right : rhs.Reads) : (Expr.binary op lhs rhs).Reads := by
  refine .ofAddend rank fun k ts next rest spelled follow => ?_
  obtain ⟨ls, us, rfl, writtenLeft, more⟩ := List.map_eq_append_iff.mp spelled
  obtain ⟨o, rs, rfl, isOperator, writtenRight⟩ := List.map_eq_cons_iff.mp more
  have product : o.token.productOperator? = some op := by
    rw [isOperator]
    cases op <;> simp [Operator.rank] at rank <;> rfl
  have notCalled : o.token.endsOperand = true := by
    rw [isOperator]
    cases op <;> rfl
  have readLeft := left.enclosed (lhs.rank < op.rank) (fun bare =>
    left.addend (by simp at bare; omega) k) ls o (rs ++ next :: rest) writtenLeft notCalled
  have readRight (k : Pending .operand) := right.enclosed (rhs.rank ≤ op.rank) (fun bare =>
    right.operand (by simp at bare; omega) k) rs next rest writtenRight follow
  calc resume (.operand (.firstFactor k)) ((ls ++ o :: rs) ++ next :: rest)
    _ = lhs.eval >>= fun a =>
          resume (.value a (.firstFactor k)) (o :: (rs ++ next :: rest)) := by
        rw [List.append_assoc]
        exact readLeft
    _ = lhs.eval >>= fun a => rhs.eval >>= fun b =>
          resume (.value b (.multiplyInto op a o.line k)) (next :: rest) :=
        bind_congr fun a => (resume_product product).trans (readRight _)
    _ = lhs.eval >>= fun a => rhs.eval >>= fun b => attempt (op.apply a b) >>= fun v =>
          resume (.value v (.firstFactor k)) (next :: rest) :=
        bind_congr fun a => bind_congr fun b => resume_multiply
    _ = (Expr.binary op lhs rhs).eval >>= fun v =>
          resume (.value v (.firstFactor k)) (next :: rest) := by
        simp only [Expr.eval, bind_assoc]

/-- As for products, with an addend on the right: its own products come first. -/
theorem Operator.reads_sum {op : Operator} (rank : op.rank = 1) {lhs rhs : Expr}
    (left : lhs.Reads) (right : rhs.Reads) : (Expr.binary op lhs rhs).Reads := by
  refine .ofTerm rank fun k ts next rest spelled follow => ?_
  obtain ⟨ls, us, rfl, writtenLeft, more⟩ := List.map_eq_append_iff.mp spelled
  obtain ⟨o, rs, rfl, isOperator, writtenRight⟩ := List.map_eq_cons_iff.mp more
  have sum : o.token.productOperator? = none ∧ o.token.sumOperator? = some op := by
    rw [isOperator]
    cases op <;> simp [Operator.rank] at rank <;> exact ⟨rfl, rfl⟩
  have endsTerm : o.token.endsTerm = true := by
    rw [isOperator]
    cases op <;> simp [Operator.rank] at rank <;> rfl
  have notMultiplied : next.token.productOperator? = none := by
    simp [Token.endsTerm] at follow
    exact follow.2
  have readLeft := left.enclosed (lhs.rank < op.rank) (fun bare =>
    left.term (by simp at bare; omega) k) ls o (rs ++ next :: rest) writtenLeft endsTerm
  have readRight (k : Pending .addend) := right.enclosed (rhs.rank ≤ op.rank) (fun bare =>
    right.addend (by simp at bare; omega) k) rs next rest writtenRight
      (Token.endsOperand_of_endsTerm follow)
  calc resume (.operand (.firstOperand k)) ((ls ++ o :: rs) ++ next :: rest)
    _ = lhs.eval >>= fun a =>
          resume (.value a (.firstOperand k)) (o :: (rs ++ next :: rest)) := by
        rw [List.append_assoc]
        exact readLeft
    _ = lhs.eval >>= fun a => rhs.eval >>= fun b =>
          resume (.value b (.firstFactor (.addTo op a o.line k))) (next :: rest) :=
        bind_congr fun a => (resume_sum sum.1 sum.2).trans (readRight _)
    _ = lhs.eval >>= fun a => rhs.eval >>= fun b => attempt (op.apply a b) >>= fun v =>
          resume (.value v (.firstOperand k)) (next :: rest) :=
        bind_congr fun a => bind_congr fun b => resume_add notMultiplied
    _ = (Expr.binary op lhs rhs).eval >>= fun v =>
          resume (.value v (.firstOperand k)) (next :: rest) := by
        simp only [Expr.eval, bind_assoc]

/-- The value is read with one more name to bind; the name is bound at the token
after it. -/
theorem Name.reads_assign (target : Name) {value : Expr} (h : value.Reads) :
    (Expr.assign target value).Reads where
  whole targets g ts close rest spelled closing := by
    obtain ⟨t, us, rfl, named, more⟩ := List.map_eq_cons_iff.mp spelled
    obtain ⟨sign, us, rfl, assigned, written⟩ := List.map_eq_cons_iff.mp more
    have read := h.whole (target.text :: targets) g us close rest written closing
    calc resume (.expression (.into targets g)) (t :: sign :: us ++ close :: rest)
      _ = checkKnown target.text >>= fun _ => value.eval >>= fun v =>
            resume (.value v (.firstOperand (.whole (.into (target.text :: targets) g))))
              (close :: rest) :=
          (resume_assign named assigned).trans (bind_congr fun _ => read)
      _ = checkKnown target.text >>= fun _ => value.eval >>= fun v =>
            define target.text v >>= fun _ =>
              resume (.value v (.firstOperand (.whole (.into targets g)))) (close :: rest) :=
          bind_congr fun _ => bind_congr fun v => resume_into closing
      _ = (Expr.assign target value).eval >>= fun v =>
            resume (.value v (.firstOperand (.whole (.into targets g)))) (close :: rest) := by
          simp only [Expr.eval, bind_assoc, pure_bind]
  term loose := by cases loose
  addend tight := by cases tight
  operand tight := by cases tight

/-! ### Calls -/

theorem commaSeparated_cons_cons (item next : List Token) (items : List (List Token)) :
    commaSeparated (item :: next :: items) = item ++ .comma :: commaSeparated (next :: items) := by
  simp [commaSeparated, List.intercalate_cons_cons]

/-- A list begins with its first item. -/
theorem commaSeparated_cons (item : List Token) (items : List (List Token)) :
    ∃ more, commaSeparated (item :: items) = item ++ more := by
  cases items with
  | nil => exact ⟨[], by simp [commaSeparated]⟩
  | cons next items => exact ⟨_, commaSeparated_cons_cons item next items⟩

section

variable {call : Call} {k : Pending .operand} {ts rest : List Located} {next close : Located}

/-- One generic argument, with its sign. -/
theorem resume_generic {n : Signed} {generics : List Float}
    (spelled : ts.map Located.token = n.tokens) :
    resume (.generic call generics k) (ts ++ next :: rest) =
      resume (.afterGeneric call (generics ++ [n.value]) k) (next :: rest) := by
  obtain ⟨negative, l⟩ := n
  cases negative with
  | true =>
      obtain ⟨sign, us, rfl, isMinus, more⟩ := List.map_eq_cons_iff.mp spelled
      obtain ⟨t, rfl, found⟩ := List.map_eq_singleton_iff.mp more
      have minus : resume (.generic call generics k) (sign :: t :: next :: rest) =
          resume (.negatedGeneric call generics k) (t :: next :: rest) :=
        resume_move fun env => by simp only [step, genericStep, isMinus]
      have number : resume (.negatedGeneric call generics k) (t :: next :: rest) =
          resume (.afterGeneric call (generics ++ [-l.value]) k) (next :: rest) :=
        resume_move fun env => by
          simp only [step, negatedGenericStep, found, literalValue_text]
          rfl
      exact minus.trans number
  | false =>
      obtain ⟨t, rfl, found⟩ := List.map_eq_singleton_iff.mp spelled
      exact resume_move fun env => by simp only [step, genericStep, found, literalValue_text]; rfl

/-- Generic arguments up to the end of their list. -/
theorem resume_generics {n : Signed} {ns : List Signed} {generics : List Float}
    (spelled : ts.map Located.token = commaSeparated ((n :: ns).map Signed.tokens))
    (closes : close.token = .genericEnd) :
    resume (.generic call generics k) (ts ++ close :: rest) =
      attempt (call.callee.specialize (generics ++ (n :: ns).map Signed.value)) >>= fun callee =>
        resume (.openArguments { call with callee } k) rest := by
  induction ns generalizing n generics ts with
  | nil =>
      rw [List.map_singleton, commaSeparated, List.intercalate_singleton] at spelled
      exact (resume_generic spelled).trans (resume_genericEnd closes)
  | cons m ns ih =>
      rw [List.map_cons, List.map_cons, commaSeparated_cons_cons] at spelled
      obtain ⟨us, more, rfl, written, later⟩ := List.map_eq_append_iff.mp spelled
      obtain ⟨comma, more, rfl, isComma, later⟩ := List.map_eq_cons_iff.mp later
      rw [List.append_assoc, List.cons_append, resume_generic written, resume_genericComma isComma,
        ih later, List.append_assoc, List.map_cons, List.map_cons, List.map_cons,
        List.singleton_append]

/-- What is called, with its generic arguments if there are any. -/
theorem resume_specialize {generics : Option (List Signed)} {paren : Located}
    (spelled : ts.map Located.token = genericTokens generics) (opens : paren.token = .leftParen) :
    resume (.callee call k) (ts ++ paren :: rest) =
      specialize call.callee (generics.map fun ns => ns.map Signed.value) >>= fun callee =>
        resume (.firstArgument { call with callee } k) rest := by
  cases generics with
  | none =>
      obtain rfl := List.map_eq_nil_iff.mp spelled
      exact resume_arguments opens
  | some ns =>
      obtain ⟨left, us, rfl, begins, more⟩ := List.map_eq_cons_iff.mp spelled
      obtain ⟨inside, last, rfl, written, closed⟩ := List.map_eq_append_iff.mp more
      obtain ⟨right, rfl, closes⟩ := List.map_eq_singleton_iff.mp closed
      have specialized : resume (.firstGeneric call k) (inside ++ right :: paren :: rest) =
          attempt (call.callee.specialize (ns.map Signed.value)) >>= fun callee =>
            resume (.openArguments { call with callee } k) (paren :: rest) := by
        cases ns with
        | nil =>
            obtain rfl := List.map_eq_nil_iff.mp written
            exact resume_noGenerics closes
        | cons n ns =>
            have begins : ∃ t us, inside = t :: us ∧ t.token ≠ .genericEnd := by
              obtain ⟨more, same⟩ := commaSeparated_cons n.tokens (ns.map Signed.tokens)
              rw [List.map_cons, same, Signed.tokens] at written
              split at written
              · obtain ⟨t, us, rfl, isMinus, -⟩ := List.map_eq_cons_iff.mp written
                exact ⟨t, us, rfl, by simp [isMinus]⟩
              · obtain ⟨t, us, rfl, isNumber, -⟩ := List.map_eq_cons_iff.mp written
                exact ⟨t, us, rfl, by simp [isNumber]⟩
            obtain ⟨t, us, rfl, other⟩ := begins
            exact (resume_firstGeneric other).trans (resume_generics written closes)
      rw [List.cons_append, List.append_assoc, resume_genericBegin begins]
      refine specialized.trans (bind_congr fun callee => ?_)
      exact resume_openArguments opens

/-- Arguments up to the end of their list. -/
theorem resume_argumentList {a : Expr} {args : List Expr} (each : ∀ e ∈ a :: args, e.Reads)
    (spelled : ts.map Located.token = commaSeparated (Expr.tokensAll (a :: args)))
    (closes : close.token = .rightParen) :
    resume (.expression (.expression (.argument call k))) (ts ++ close :: rest) =
      Expr.evalAll (a :: args) >>= fun values =>
        invoke call.callee (call.args ++ values) >>= fun v => resume (.value v k) rest := by
  induction args generalizing a call ts with
  | nil =>
      have first := (each a List.mem_cons_self).whole [] (.argument call k) ts close rest
        (by simpa [Expr.tokensAll, commaSeparated] using spelled) (by rw [closes]; rfl)
      refine first.trans ?_
      simp only [Expr.evalAll, bind_assoc, pure_bind]
      exact bind_congr fun v => resume_lastArgument closes
  | cons b args ih =>
      rw [Expr.tokensAll, Expr.tokensAll, commaSeparated_cons_cons] at spelled
      obtain ⟨us, more, rfl, written, later⟩ := List.map_eq_append_iff.mp spelled
      obtain ⟨comma, more, rfl, isComma, later⟩ := List.map_eq_cons_iff.mp later
      obtain ⟨reads, others⟩ := List.forall_mem_cons.mp each
      have first := reads.whole [] (.argument call k) us comma (more ++ close :: rest) written
        (by rw [isComma]; rfl)
      rw [List.append_assoc, List.cons_append]
      refine first.trans ?_
      rw [Expr.evalAll]
      simp only [bind_assoc, pure_bind]
      refine bind_congr fun v => ?_
      rw [resume_comma isComma, ih others later]
      simp [Call.push]

/-- All arguments of a call, if there are any. -/
theorem resume_arguments_close {args : List Expr} (each : ∀ e ∈ args, e.Reads)
    (spelled : ts.map Located.token = commaSeparated (Expr.tokensAll args))
    (closes : close.token = .rightParen) :
    resume (.firstArgument call k) (ts ++ close :: rest) =
      Expr.evalAll args >>= fun values =>
        invoke call.callee (call.args ++ values) >>= fun v => resume (.value v k) rest := by
  cases args with
  | nil =>
      obtain rfl := List.map_eq_nil_iff.mp spelled
      simp only [Expr.evalAll, pure_bind, List.append_nil]
      exact resume_noArguments closes
  | cons a args =>
      have begins : ∃ t us, ts = t :: us ∧ t.token ≠ .rightParen := by
        obtain ⟨more, same⟩ := commaSeparated_cons a.tokens (Expr.tokensAll args)
        obtain ⟨first, others, tokens, begins, -⟩ := a.begins
        rw [Expr.tokensAll, same, tokens] at spelled
        obtain ⟨t, us, rfl, rfl, -⟩ := List.map_eq_cons_iff.mp spelled
        refine ⟨t, us, rfl, fun isClose => ?_⟩
        rw [isClose] at begins
        cases begins
      obtain ⟨t, us, rfl, other⟩ := begins
      exact (resume_argument other).trans (resume_argumentList each spelled closes)

end

/-- The callee, its generic arguments, its arguments, and the invocation. -/
theorem Name.reads_call (f : Name) (generics : Option (List Signed)) {args : List Expr}
    (each : ∀ e ∈ args, e.Reads) : (Expr.call f generics args).Reads := by
  refine .ofOperand rfl fun k ts next rest spelled follow => ?_
  obtain ⟨us, last, rfl, more, closed⟩ := List.map_eq_append_iff.mp spelled
  obtain ⟨right, rfl, closes⟩ := List.map_eq_singleton_iff.mp closed
  obtain ⟨head, inside, rfl, more, arguments⟩ := List.map_eq_append_iff.mp more
  obtain ⟨t, given, rfl, named, specialized⟩ := List.map_eq_cons_iff.mp more
  obtain ⟨left, inside, rfl, opens, written⟩ := List.map_eq_cons_iff.mp arguments
  have text : (t :: given ++ left :: inside) ++ [right] ++ next :: rest =
      t :: (given ++ left :: (inside ++ right :: next :: rest)) := by simp
  have opensCall : ∃ u us, given ++ left :: (inside ++ right :: next :: rest) = u :: us ∧
      u.token.opensCall = true := by
    cases generics with
    | none =>
        obtain rfl := List.map_eq_nil_iff.mp specialized
        exact ⟨left, _, rfl, by rw [opens]; rfl⟩
    | some ns =>
        obtain ⟨u, us, rfl, begins, -⟩ := List.map_eq_cons_iff.mp specialized
        exact ⟨u, _, rfl, by rw [begins]; rfl⟩
  obtain ⟨u, us, same, opensCall⟩ := opensCall
  calc resume (.operand k) ((t :: given ++ left :: inside) ++ [right] ++ next :: rest)
    _ = callee f.text >>= fun c => resume (.callee ⟨f.text, c, t.line, []⟩ k)
          (given ++ left :: (inside ++ right :: next :: rest)) := by
        rw [text, same]
        exact resume_callee named opensCall
    _ = callee f.text >>= fun c =>
          specialize c (generics.map fun ns => ns.map Signed.value) >>= fun c =>
            resume (.firstArgument ⟨f.text, c, t.line, []⟩ k) (inside ++ right :: next :: rest) :=
        bind_congr fun c => resume_specialize specialized opens
    _ = callee f.text >>= fun c =>
          specialize c (generics.map fun ns => ns.map Signed.value) >>= fun c =>
            Expr.evalAll args >>= fun values => invoke c values >>= fun v =>
              resume (.value v k) (next :: rest) :=
        bind_congr fun _ => bind_congr fun _ => resume_arguments_close each written closes
    _ = (Expr.call f generics args).eval >>= fun v => resume (.value v k) (next :: rest) := by
        simp only [Expr.eval, bind_assoc]

/-- Every tree is read as its evaluation. -/
theorem Expr.reads (e : Expr) : e.Reads := by
  induction e using Expr.inductionOn with
  | number n => exact n.reads
  | name n => exact n.reads
  | binary op lhs rhs left right =>
      cases op with
      | add | subtract => exact Operator.reads_sum rfl left right
      | multiply | divide | modulo => exact Operator.reads_product rfl left right
  | call f generics args each => exact f.reads_call generics each
  | assign target value ih => exact target.reads_assign ih

/-! ### Statements and programs -/

/-- A statement is evaluated up to its terminator, and nothing of it is pending then. -/
theorem Statement.reads (s : Statement) {ts rest : List Located}
    (spelled : ts.map Located.token = s.tokens) :
    resume .statement (ts ++ rest) = s.eval >>= fun _ => resume .statement rest := by
  cases s with
  | declare name value =>
      obtain ⟨t, us, rfl, isVar, more⟩ := List.map_eq_cons_iff.mp spelled
      obtain ⟨u, us, rfl, named, more⟩ := List.map_eq_cons_iff.mp more
      obtain ⟨sign, us, rfl, assigned, more⟩ := List.map_eq_cons_iff.mp more
      obtain ⟨inside, last, rfl, written, closed⟩ := List.map_eq_append_iff.mp more
      obtain ⟨close, rfl, closes⟩ := List.map_eq_singleton_iff.mp closed
      have read := value.reads.whole [] (.declare name.text) inside close rest written
        (by rw [closes]; rfl)
      calc resume .statement (t :: u :: sign :: (inside ++ [close]) ++ rest)
        _ = checkNew name.text >>= fun _ =>
              resume (.expression (.expression (.declare name.text)))
                (inside ++ close :: rest) := by
            rw [List.append_cons inside close rest]
            exact resume_var isVar named assigned
        _ = checkNew name.text >>= fun _ => value.eval >>= fun v =>
              define name.text v >>= fun _ => resume .statement rest :=
            bind_congr fun _ => read.trans (bind_congr fun v => resume_declare closes)
        _ = (Statement.declare name value).eval >>= fun _ => resume .statement rest := by
            simp only [Statement.eval, bind_assoc]
  | bare e =>
      obtain ⟨inside, last, rfl, written, closed⟩ := List.map_eq_append_iff.mp spelled
      obtain ⟨close, rfl, closes⟩ := List.map_eq_singleton_iff.mp closed
      have read := e.reads.whole [] .discard inside close rest written (by rw [closes]; rfl)
      have begins : resume .statement (inside ++ close :: rest) =
          resume (.expression (.expression .discard)) (inside ++ close :: rest) := by
        obtain ⟨first, more, same, begins, -⟩ := e.begins
        rw [same] at written
        obtain ⟨t, us, rfl, rfl, -⟩ := List.map_eq_cons_iff.mp written
        refine resume_bare (fun ends => ?_) fun isVar => ?_
        · rw [ends] at begins
          cases begins
        · rw [isVar] at begins
          cases begins
      rw [← List.append_cons, begins, read]
      simp only [Statement.eval, bind_assoc, pure_bind]
      exact bind_congr fun v => resume_discard closes

/-- Statements one after the other, up to the end of the text. -/
theorem resume_program (statements : List Statement) {ts : List Located} {last : Located}
    (spelled : ts.map Located.token = statements.flatMap Statement.tokens)
    (ended : last.token = .endOfFile) :
    resume .statement (ts ++ [last]) = evalProgram statements := by
  induction statements generalizing ts with
  | nil =>
      obtain rfl := List.map_eq_nil_iff.mp spelled
      exact resume_finish ended
  | cons s statements ih =>
      obtain ⟨us, more, rfl, first, later⟩ := List.map_eq_append_iff.mp spelled
      rw [List.append_assoc, s.reads first, ih later]
      rfl

/-- A program is evaluated from its text as from its tree: with the same
environment and printed values in the end, and the same fault if there is one. -/
theorem program_programText (statements : List Statement) (env : Env) :
    (evalProgram statements).run.run ⟨env, []⟩ =
      ((program env (programText statements)).result.mapError Failure.fault,
        ⟨(program env (programText statements)).env,
          (program env (programText statements)).printed⟩) := by
  obtain ⟨ts, last, scanned, spelled, closed⟩ :=
    List.map_eq_append_iff.mp (scan_programText statements)
  obtain ⟨last, rfl, ended⟩ := List.map_eq_singleton_iff.mp closed
  have report := program_report env (programText statements)
  rw [scanned] at report
  rw [← resume_program statements spelled ended]
  exact congrArg (fun r : Report => (r.result.mapError Failure.fault, World.mk r.env r.printed))
    report.symm

end PolyCalc
