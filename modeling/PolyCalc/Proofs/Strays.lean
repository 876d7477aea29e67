import PolyCalc.Proofs.Complete.Run

/-!
Characters that start no token.

Such a character is a token of its own, a stray one, and it fits nowhere: no
transition uses it up (`Takes.not_stray`), and a lexical failure is the report of the
stray token in turn (`Stops.lexical`). Since the tokens before it have all been used
up, it is the first stray token of the text that is reported, whatever else is
wrong further on, and a text that is evaluated to its end has none
(`program_strays`).
-/

namespace PolyCalc

/-- Whether no token starts with the character that stands here. -/
def Located.isStray (t : Located) : Bool :=
  match t.token with
  | .stray _ => true
  | _ => false

theorem Located.isStray_iff {t : Located} : t.isStray = true ↔ ∃ c, t.token = .stray c := by
  unfold isStray
  split
  · rename_i c found
    exact ⟨fun _ => ⟨c, found⟩, fun _ => rfl⟩
  · rename_i other
    constructor
    · intro stray
      cases stray
    · rintro ⟨c, found⟩
      exact absurd found (other c)

section

variable {env : Env} {t next : Located} {c : Control} {events : List Event}

/-! ### Transitions -/

/-- No rule of the grammar has a place for a stray token. -/
theorem Takes.not_stray {m : Mode} (taken : Takes env t next c events m) : t.isStray = false := by
  rw [← Bool.not_eq_true, Located.isStray_iff]
  rintro ⟨d, stray⟩
  cases taken with
  | unknown found | unknownFactor found | unknownAfter _ found =>
      rw [found.1] at stray
      cases stray
  | productOperator found | sumOperator _ found | factorOperator _ found | nextComponent found =>
      rw [stray] at found
      cases found
  | finish found | var found | declareName found | declareSign found | terminator found
  | captureBegin found | assignName found | assignSign found | number found | minus found
  | negated found | name found | callee found | leftParen found | rightParen found
  | genericBegin found | arguments found | genericNumber found | genericMinus found
  | genericNegated found | genericComma found | noGenerics found | genericEnd found
  | openArguments found | noArguments found | comma found | lastArgument found
  | captureName found | captureComma found | noCaptures found | captureEnd found | arrow found
  | bodyMinus found | caret found | openExponent found | closeExponent found =>
      rw [found] at stray
      cases stray

/-- The fault of an operation on values is not lexical. -/
theorem Operational.not_lexical {α : Type} {x : Except Fault α} {fault : Fault}
    (operational : Operational x) (failed : x = .error fault) : fault.kind ≠ .lexical := by
  rcases operational fault failed with domain | rfl
  · rw [domain]
    exact Kind.noConfusion
  · exact Kind.noConfusion

/-- The failure that reports a stray character at its own place. -/
def Located.strayFailure (t : Located) (found : Char) : Failure :=
  ⟨.unexpectedCharacter found t.start.column, t.start.line⟩

theorem Traced.unexpected_lexical {expected : Expected} {failure : Failure}
    (failed : (Traced.unexpected t expected : Traced Mode).result = .error failure)
    (lexical : failure.kind = .lexical) :
    ∃ found, t.token = .stray found ∧ failure = t.strayFailure found := by
  unfold Traced.unexpected at failed
  split at failed
  · rename_i found stray
    cases failed
    exact ⟨found, stray, rfl⟩
  · cases failed
    cases lexical

/-- A lexical failure is about the token in turn, which is stray. -/
theorem Stops.lexical {failure : Failure} (stopped : Stops env t next c events failure)
    (lexical : failure.kind = .lexical) :
    ∃ found, t.token = .stray found ∧ failure = t.strayFailure found := by
  cases stopped with
  | unexpected failed | unclosed failed => exact Traced.unexpected_lexical failed lexical
  | malformedNumber | redefined | undefined | notCallable | notCaptured => cases lexical
  | lookup _ failed =>
      have kind := Env.lookup_kind failed
      rw [Failure.kind, kind] at lexical
      cases lexical
  | mixedVariables _ failed =>
      have kind := Lambda.use_kind failed
      rw [Failure.kind, kind] at lexical
      cases lexical
  | multiply failed | add failed =>
      exact absurd lexical ((Operator.apply_operational _ _ _).not_lexical failed)
  | noGenerics failed | genericEnd failed =>
      exact absurd lexical ((Callable.specialize_operational _ _).not_lexical failed)
  | noArguments failed | lastArgument failed =>
      exact absurd lexical ((Callable.invoke_operational _ _).not_lexical failed)
  | factor failed | exponent failed =>
      exact absurd lexical ((Value.asNumber_operational _).not_lexical failed)
  | constant failed | linear failed | term _ failed =>
      exact absurd lexical ((Lambda.add_operational _ _ _).not_lexical failed)
  | power failed => exact absurd lexical ((powerOf_operational _).not_lexical failed)

/-- A step that succeeds has used up a token that is not stray. A step that fails
lexically reports the token that it has not used up. -/
theorem Reaches.strays {result : Except Failure Mode}
    (reached : Reaches env t next c events result) :
    (∀ m, result = .ok m → t.isStray = false) ∧
      ∀ failure, result = .error failure → failure.kind = .lexical →
        ∃ found, t.token = .stray found ∧ failure = t.strayFailure found := by
  induction reached with
  | settles _ _ ih => exact ih
  | takes taken =>
      refine ⟨fun _ _ => taken.not_stray, ?_⟩
      rintro failure ⟨⟩
  | stops stopped =>
      constructor
      · rintro m ⟨⟩
      · rintro failure ⟨⟩
        exact stopped.lexical

end

/-! ### Runs -/

/-- All tokens of an evaluation that succeeds are in their places. -/
theorem evaluate_not_stray {scopes : Scopes} {m : Mode} {tokens : List Located}
    (ok : (evaluate scopes m tokens).result = .ok ()) : ∀ t ∈ tokens, t.isStray = false := by
  induction tokens generalizing scopes m with
  | nil => exact fun _ member => nomatch member
  | cons t rest ih =>
      obtain ⟨m', stepped, later⟩ := evaluate_cons_ok ok
      have reached : Follows scopes.current t (rest.headD t) (.mode m) _ := step_follows m
      exact List.forall_mem_cons.mpr ⟨reached.strays.1 m' stepped, ih later⟩

/-- An evaluation that fails lexically has come to the first stray token, by induction on
the tokens: those before it have been used up. -/
theorem evaluate_lexical {scopes : Scopes} {m : Mode} {tokens : List Located} {failure : Failure}
    (failed : (evaluate scopes m tokens).result = .error failure)
    (lexical : failure.kind = .lexical) :
    ∃ t found, tokens.find? Located.isStray = some t ∧ t.token = .stray found ∧
      failure = t.strayFailure found := by
  induction tokens generalizing scopes m with
  | nil => cases failed
  | cons t rest ih =>
      have reached : Follows scopes.current t (rest.headD t) (.mode m) _ := step_follows m
      obtain ⟨used, reported⟩ := reached.strays
      rw [evaluate] at failed
      split at failed
      · rename_i m' stepped
        obtain ⟨t', found, first, stray⟩ := ih failed
        refine ⟨t', found, ?_, stray⟩
        rw [List.find?_cons_of_neg (Bool.eq_false_iff.mp (used m' stepped)), first]
      · rename_i failure' stepped
        cases failed
        obtain ⟨found, stray, same⟩ := reported failure stepped lexical
        refine ⟨t, found, ?_, stray, same⟩
        exact List.find?_cons_of_pos (Located.isStray_iff.mpr ⟨found, stray⟩)

/-- A program with a stray character does not succeed. If it reports an unexpected
character, it is the first stray one of the text, with its line and column, although
other failures may come before it. Without stray characters there is no lexical
failure. -/
theorem program_strays (env : Env) (source : String) :
    ((∃ t ∈ scan source, t.isStray = true) → (program env source).result ≠ .ok ()) ∧
      (∀ found column line,
        (program env source).result = .error ⟨.unexpectedCharacter found column, line⟩ →
          ∃ t, (scan source).find? Located.isStray = some t ∧ t.token = .stray found ∧
            t.start.line = line ∧ t.start.column = column) ∧
      ((∀ t ∈ scan source, t.isStray = false) →
        ∀ failure, (program env source).result = .error failure → failure.kind ≠ .lexical) := by
  rw [program_result]
  refine ⟨?_, ?_, ?_⟩
  · rintro ⟨t, member, stray⟩ ok
    rw [evaluate_not_stray ok t member] at stray
    cases stray
  · intro found column line failed
    obtain ⟨t, found', first, stray, same⟩ := evaluate_lexical failed rfl
    cases same
    exact ⟨t, first, stray, rfl, rfl⟩
  · intro clean failure failed lexical
    obtain ⟨t, found, first, -⟩ := evaluate_lexical failed lexical
    have stray := List.find?_some first
    rw [clean t (List.mem_of_find?_eq_some first)] at stray
    cases stray

/-- The colon is reported and not the dollar sign after it. In the second text nothing is
stray, and it fails for a missing terminator. -/
theorem program_strays_colon :
    (∃ t ∈ scan "print(1);\nvar x : = $;", t.isStray = true) ∧
      (program .preloaded "print(1);\nvar x : = $;").result ≠ .ok () ∧
      (program .preloaded "print(1);\nvar x : = $;").result =
        .error ⟨.unexpectedCharacter ':' 7, 2⟩ ∧
      (∃ t, (scan "print(1);\nvar x : = $;").find? Located.isStray = some t ∧
        t.token = .stray ':' ∧ t.start.line = 2 ∧ t.start.column = 7) ∧
      (∀ t ∈ scan "1 2;", t.isStray = false) ∧
      ∃ failure, (program .preloaded "1 2;").result = .error failure ∧ failure.kind ≠ .lexical := by
  obtain ⟨stops, first, -⟩ := program_strays .preloaded "print(1);\nvar x : = $;"
  obtain ⟨-, -, lexical⟩ := program_strays .preloaded "1 2;"
  have reported : (program .preloaded "print(1);\nvar x : = $;").result =
      .error ⟨.unexpectedCharacter ':' 7, 2⟩ :=
    Outcome.failure?_eq_some.mp (by decide +kernel)
  have fails : (program .preloaded "1 2;").result =
      .error ⟨.unexpectedToken (.number "2") (.exactly .terminator), 1⟩ :=
    Outcome.failure?_eq_some.mp (by decide +kernel)
  have clean : ∀ t ∈ scan "1 2;", t.isStray = false := by decide +kernel
  obtain ⟨t, found, stray⟩ := first ':' 7 2 reported
  have some : ∃ t ∈ scan "print(1);\nvar x : = $;", t.isStray = true :=
    ⟨t, List.mem_of_find?_eq_some found, List.find?_some found⟩
  exact ⟨some, stops some, reported, ⟨t, found, stray⟩, clean, _, fails, lexical clean _ fails⟩

end PolyCalc
