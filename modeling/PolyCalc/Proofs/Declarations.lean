import PolyCalc.Proofs.Grammar

/-!
Declarations and their ends.

A name is declared once its value is complete, and nothing else happens in its
statement after that: the next statement follows, or the run ends, either at the
end of the text or for want of a terminator (`evaluate_declarations`). A failure
inside of the value comes before the declaration. The other way round, a
declaration that has begun is owed until it is made, and neither its statement nor
the text ends before (`evaluate_declares`).
-/

namespace PolyCalc

/-! ### The last event of a statement -/

/-- The failure of a token that stands where a terminator has to be. -/
def Located.unterminated (t : Located) : Failure :=
  match t.token with
  | .stray c => ⟨.unexpectedCharacter c t.start.column, t.line⟩
  | token => ⟨.unexpectedToken token (.exactly .terminator), t.line⟩

theorem unexpected_terminator {α : Type} (t : Located) :
    (Traced.unexpected t (.exactly .terminator) : Traced α).result = .error t.unterminated := by
  unfold Traced.unexpected Located.unterminated
  cases t.token <;> rfl

/-- After each declaration comes the next statement, or nothing if the run has ended
in the given way. -/
def DeclaresLast (ended : Prop) (events : List Event) : Prop :=
  ∀ name v after, (.declared name v :: after) <:+ events →
    (∃ line more, after = .statement line :: more) ∨ (after = [] ∧ ended)

namespace DeclaresLast

variable {ended : Prop} {e : Event} {events more : List Event}

theorem nil : DeclaresLast ended [] := by
  intro name v after suffix
  cases List.suffix_nil.mp suffix

theorem cons (h : DeclaresLast ended events) (other : ∀ name v, e ≠ .declared name v) :
    DeclaresLast ended (e :: events) := by
  intro name v after suffix
  rcases List.suffix_cons_iff.mp suffix with same | later
  · exact absurd (List.cons.inj same).1.symm (other name v)
  · exact h name v after later

theorem declared {name : String} {v : Value Float} (h : DeclaresLast ended events)
    (last : (∃ line more, events = .statement line :: more) ∨ (events = [] ∧ ended)) :
    DeclaresLast ended (.declared name v :: events) := by
  intro name' v' after suffix
  rcases List.suffix_cons_iff.mp suffix with same | later
  · cases same
    exact last
  · exact h name' v' after later

theorem append (h : DeclaresLast ended more)
    (other : ∀ e ∈ events, ∀ name v, e ≠ .declared name v) :
    DeclaresLast ended (events ++ more) := by
  induction events with
  | nil => exact h
  | cons e events ih =>
      obtain ⟨first, rest⟩ := List.forall_mem_cons.mp other
      exact (ih rest).cons first

theorem mono {ended' : Prop} (weaker : ended → ended') (h : DeclaresLast ended events) :
    DeclaresLast ended' events := by
  intro name v after suffix
  rcases h name v after suffix with next | ⟨last, how⟩
  · exact .inl next
  · exact .inr ⟨last, weaker how⟩

end DeclaresLast

section

variable {env : Env} {t next : Located} {c : Control} {events : List Event}
  {result : Except Failure Mode}

/-- Once the value is where it goes, there has to be a terminator. -/
theorem Reaches.of_discard {v : Value Float}
    (reached : Reaches env t next (.deliver v (.into [] .discard)) events result) :
    events = [] ∧ (result = .ok .statement ∨ result = .error t.unterminated) := by
  cases reached with
  | settles settled => cases settled
  | takes taken =>
      cases taken
      exact ⟨rfl, .inl rfl⟩
  | stops stopped =>
      cases stopped with
      | unclosed failed =>
          refine ⟨rfl, .inr ?_⟩
          rw [← failed]
          exact unexpected_terminator t

/-- A step that declares a name ends the statement with it, where a terminator may stand. -/
theorem Reaches.declaresLast (reached : Reaches env t next c events result) {ended : Prop}
    {more : List Event} (rest : DeclaresLast ended more)
    (closed : result = .ok .statement ∨ result = .error t.unterminated →
      c.Accepts [.terminator] →
      (∃ line more', more = .statement line :: more') ∨ (more = [] ∧ ended)) :
    DeclaresLast ended (events ++ more) := by
  induction reached with
  | settles settled reached ih =>
      rw [List.append_assoc]
      have later := ih fun how accepts => closed how (settled.accepts accepts)
      cases settled with
      | declared =>
          obtain ⟨rfl, how⟩ := reached.of_discard
          exact rest.declared (closed how ⟨[], rfl, .emptyProgram⟩)
      | _ => exact later.append (by simp)
  | takes taken =>
      refine rest.append ?_
      cases taken <;> simp
  | stops stopped =>
      refine rest.append ?_
      cases stopped <;> simp

end

theorem statementStep_effects {env : Env} {t next : Located} (notEnd : t.token ≠ .endOfFile) :
    ∃ more, effects (statementStep env t next).events = .statement t.line :: more := by
  unfold statementStep
  split
  · rename_i found
    exact absurd found notEnd
  · exact ⟨_, rfl⟩
  · exact ⟨_, rfl⟩

/-- A new statement begins with its event; at the end of the text there is none. -/
theorem evaluate_statement (scopes : Scopes) (tokens : List Located) :
    (∃ line more, effects (evaluate scopes .statement tokens).journal = .statement line :: more) ∨
      (effects (evaluate scopes .statement tokens).journal = [] ∧
        (evaluate scopes .statement tokens).result = .ok ()) := by
  induction tokens generalizing scopes with
  | nil => exact .inr ⟨rfl, rfl⟩
  | cons t rest ih =>
      by_cases ended : t.token = .endOfFile
      · have stepped : step scopes.current t (rest.headD t) .statement = pure .statement := by
          simp only [step, statementStep, ended]
        simp only [evaluate, stepped]
        exact ih _
      · left
        obtain ⟨more, stepped⟩ : ∃ more,
            effects (step scopes.current t (rest.headD t) .statement).events =
              .statement t.line :: more := statementStep_effects ended
        rw [evaluate]
        split
        · rw [Outcome.after, effects_append, stepped]
          exact ⟨_, _, rfl⟩
        · exact ⟨_, _, stepped⟩

/-- Each declaration of an evaluation is the last event of its statement. A failure right
after it is at a token in whose place a terminator would end the statement. -/
theorem evaluate_declarations (scopes : Scopes) (m : Mode) (tokens : List Located) :
    DeclaresLast ((evaluate scopes m tokens).result = .ok () ∨
        ∃ used t rest, tokens = used ++ t :: rest ∧
          ((∀ u ∈ used, u.token ≠ .endOfFile) →
            m.Accepts (used.map Located.token ++ [.terminator])) ∧
          (evaluate scopes m tokens).result = .error t.unterminated)
      (effects (evaluate scopes m tokens).journal) := by
  induction tokens generalizing scopes m with
  | nil => exact .nil
  | cons t rest ih =>
      have reached : Follows scopes.current t (rest.headD t) (.mode m) _ := step_follows m
      rw [evaluate]
      split
      · rename_i m' ok
        rw [Follows, ok] at reached
        rw [Outcome.after, effects_append]
        refine reached.declaresLast ((ih _ m').mono ?_) ?_
        · rintro (ended | ⟨used, u, later, rfl, accepts, failed⟩)
          · exact .inl ended
          · refine .inr ⟨t :: used, u, later, rfl, fun proper => ?_, failed⟩
            obtain ⟨first, proper⟩ := List.forall_mem_cons.mp proper
            exact reached.accepts rfl first (accepts proper)
        · rintro (⟨⟨⟩⟩ | ⟨⟨⟩⟩) -
          rcases evaluate_statement _ rest with next | ⟨none, ended⟩
          · exact .inl next
          · exact .inr ⟨none, .inl ended⟩
      · rename_i failure failed
        rw [Follows, failed] at reached
        rw [← List.append_nil (effects _)]
        refine reached.declaresLast .nil ?_
        rintro (⟨⟨⟩⟩ | ⟨⟨⟩⟩) accepts
        exact .inr ⟨rfl, .inr ⟨[], t, rest, rfl, fun _ => accepts, rfl⟩⟩

/-! ### Declarations that are owed -/

/-- The name that the value of the statement is going to be declared as. -/
def Pending.Declares (name : String) : {s : Stage} → Pending s → Prop
  | _, .discard => False
  | _, .declare other => other = name
  | _, .group k | _, .argument _ k | _, .into _ k | _, .whole k | _, .exponent _ _ _ k
  | _, .firstAddend k | _, .addTo _ _ _ k | _, .firstFactor k | _, .multiplyInto _ _ _ k
  | _, .coefficient _ _ _ _ k => k.Declares name

def Mode.Declares (name : String) : Mode → Prop
  | .statement | .declareName | .declareSign _ => False
  | .expression k | .assignSign _ k | .firstCapture _ k | .capture _ _ k | .afterCapture _ _ k
  | .arrow _ _ k | .body _ k | .component _ _ k | .factor _ _ _ _ k | .afterVariable _ _ k
  | .openExponent _ _ _ k | .afterComponent _ k => k.Declares name
  | .operand k | .negated k | .value _ k | .callee _ k | .firstGeneric _ k | .generic _ _ k
  | .negatedGeneric _ _ k | .afterGeneric _ _ k | .openArguments _ k | .firstArgument _ k =>
      k.Declares name

def Control.Declares (name : String) : Control → Prop
  | .mode m => m.Declares name
  | .deliver _ k => k.Declares name

section

variable {env : Env} {t next : Located} {c c' : Control} {events : List Event} {m : Mode}
  {name : String}

/-- A declaration is owed until it is made. -/
theorem Settles.declares (settled : Settles env t next c events c') (owed : c.Declares name) :
    c'.Declares name ∨ ∃ v, .declared name v ∈ events := by
  cases settled with
  | statement => cases owed
  | declared =>
      obtain rfl := owed
      exact .inr ⟨_, List.mem_cons_self⟩
  | _ => exact .inl owed

/-- Using up a token does not settle a declaration. -/
theorem Takes.declares (taken : Takes env t next c events m) (owed : c.Declares name) :
    m.Declares name := by
  cases taken with
  | finish | var | declareName | declareSign | terminator => cases owed
  | _ => exact owed

theorem Reaches.declares {result : Except Failure Mode}
    (reached : Reaches env t next c events result) (ok : result = .ok m)
    (owed : c.Declares name) : m.Declares name ∨ ∃ v, .declared name v ∈ events := by
  induction reached with
  | settles settled _ ih =>
      rcases settled.declares owed with still | ⟨v, made⟩
      · rcases ih ok still with later | ⟨v, made⟩
        · exact .inl later
        · exact .inr ⟨v, List.mem_append_right _ made⟩
      · exact .inr ⟨v, List.mem_append_left _ made⟩
  | takes taken =>
      cases ok
      exact .inl (taken.declares owed)
  | stops => cases ok

/-- The keyword begins a declaration, and is of no other use. -/
theorem Takes.at_var (taken : Takes env t next c events m) (found : t.token = .var) :
    m = .declareName := by
  cases taken with
  | var => rfl
  | unknown isVariable | unknownFactor isVariable | unknownAfter _ isVariable =>
      simp [isVariable.1] at found
  | productOperator operator | sumOperator _ operator | factorOperator _ operator
  | nextComponent operator => simp [found, Token.productOperator?, Token.sumOperator?] at operator
  | _ => simp_all

theorem Reaches.at_var {result : Except Failure Mode}
    (reached : Reaches env t next c events result) (ok : result = .ok m)
    (found : t.token = .var) : m = .declareName := by
  induction reached with
  | settles _ _ ih => exact ih ok
  | takes taken =>
      cases ok
      exact taken.at_var found
  | stops => cases ok

theorem Reaches.of_declareName {result : Except Failure Mode}
    (reached : Reaches env t next (.mode .declareName) events result) (ok : result = .ok m)
    (found : t.token = .identifier name) : m = .declareSign name := by
  cases reached with
  | settles settled => cases settled
  | takes taken =>
      cases ok
      cases taken with
      | declareName found' => rw [Token.identifier.inj (found'.symm.trans found)]
  | stops => cases ok

theorem Reaches.of_declareSign {result : Except Failure Mode}
    (reached : Reaches env t next (.mode (.declareSign name)) events result)
    (ok : result = .ok m) : m = .expression (.expression (.declare name)) := by
  cases reached with
  | settles settled => cases settled
  | takes taken =>
      cases ok
      cases taken
      rfl
  | stops => cases ok

end

/-- The declaration of the name has begun, or its tokens are still to come. -/
inductive Owed (name : String) : Mode → List Token → Prop where
  | pending {m tokens} : m.Declares name → Owed name m tokens
  | sign {tokens} : Owed name (.declareSign name) (.assign :: tokens)
  | name {tokens} : Owed name .declareName (.identifier name :: .assign :: tokens)
  | ahead {m tokens} : [.var, .identifier name, .assign] <:+: tokens → Owed name m tokens

/-- A step makes the declaration, or it is still owed. -/
theorem Owed.after {name : String} {m m' : Mode} {env : Env} {t next : Located}
    {rest : List Token} (owed : Owed name m (t.token :: rest))
    (ok : (step env t next m).result = .ok m') :
    Owed name m' rest ∨ ∃ v, .declared name v ∈ effects (step env t next m).events := by
  have reached : Follows env t next (.mode m) (step env t next m) := step_follows m
  generalize read : t.token :: rest = tokens at owed
  cases owed with
  | pending declares =>
      rcases reached.declares ok declares with later | made
      · exact .inl (.pending later)
      · exact .inr made
  | sign =>
      rw [reached.of_declareSign ok]
      exact .inl (.pending rfl)
  | name =>
      obtain ⟨found, rfl⟩ := List.cons.inj read
      rw [reached.of_declareName ok found]
      exact .inl .sign
  | ahead later =>
      subst read
      rcases List.infix_cons_iff.mp later with first | later
      · obtain ⟨after, same⟩ := first
        obtain ⟨found, rfl⟩ := List.cons.inj same
        rw [reached.at_var ok found.symm]
        exact .inl .name
      · exact .inl (.ahead later)

/-- Tokens that are evaluated to the end of a statement or of the text make all their
declarations. -/
theorem evaluate_declares {name : String} {scopes : Scopes} {m : Mode} {words : List Located}
    {e : Located} (ended : e.token = .endOfFile ∨ e.token = .terminator)
    (ok : (evaluate scopes m (words ++ [e])).result = .ok ())
    (owed : Owed name m ((words ++ [e]).map Located.token)) :
    ∃ v, .declared name v ∈ effects (evaluate scopes m (words ++ [e])).journal := by
  induction words generalizing scopes m with
  | nil =>
      obtain ⟨m', stepped, -⟩ := evaluate_cons_ok ok
      rw [List.nil_append, evaluate_cons_effects stepped]
      rcases owed.after stepped with still | ⟨v, made⟩
      · -- Between statements nothing is owed.
        obtain rfl := (step_follows m).at_end stepped ended
        cases still with
        | pending declares => cases declares
        | ahead later => simp at later
      · exact ⟨v, List.mem_append_left _ made⟩
  | cons t words ih =>
      rw [List.cons_append] at ok owed ⊢
      obtain ⟨m', stepped, later⟩ := evaluate_cons_ok ok
      rw [evaluate_cons_effects stepped]
      rcases owed.after stepped with still | ⟨v, made⟩
      · obtain ⟨v, made⟩ := ih later still
        exact ⟨v, List.mem_append_right _ made⟩
      · exact ⟨v, List.mem_append_left _ made⟩

end PolyCalc
