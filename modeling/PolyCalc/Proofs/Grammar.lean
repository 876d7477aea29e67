import Mathlib.Data.List.Chain
import PolyCalc.Proofs.Scan
import PolyCalc.Proofs.Transition

/-!
The grammar of programs.

`Derives` is the grammar by itself: which lists of tokens each phrase has,
without any evaluation. What has to follow a complete phrase for a program to
come out is the language of the pending work (`Pending.Follow`), and every mode
has a language of remaining tokens (`Mode.Accepts`). Each transition only moves
within these languages (`Settles.accepts`, `Takes.accepts`), so the tokens that
an evaluation gets through make up a program of the grammar
(`program_derives`).
-/

namespace PolyCalc

/-! ### Phrases -/

/-- What lists are made of. -/
inductive Item where
  | name
  | signedNumber
  | expression
deriving DecidableEq, Repr

/-- The phrases of the grammar. A repetition is a phrase of its own. -/
inductive Phrase where
  | program
  | statement
  | expression
  | term
  /-- The further addends of a term, with their operators. -/
  | addends
  | addend
  /-- The further operands of an addend, with their operators. -/
  | factors
  | operand
  | generics
  | signedNumber
  | number
  | name
  | polynomial
  /-- The further components of a polynomial, with their operators. -/
  | components
  | component
  /-- The variable after a coefficient, if there is one. -/
  | unknown
  /-- The exponent of a variable, if there is one. -/
  | power
  /-- Items with commas between them, or nothing. -/
  | list (item : Item)
  /-- The further items of a list, each after a comma. -/
  | more (item : Item)
deriving DecidableEq, Repr

/-- The phrase that an item of a list is. -/
def Item.phrase : Item → Phrase
  | name => .name
  | signedNumber => .signedNumber
  | expression => .expression

/-- The operators between addends. -/
def sumTokens : List Token := [.plus, .minus]

/-- The operators between operands. -/
def productTokens : List Token := [.star, .slash, .percent]

/-- The tokens make up the phrase. -/
inductive Derives : Phrase → List Token → Prop where
  -- program := (statement ';')*
  | emptyProgram : Derives .program []
  | program {s p} : Derives .statement s → Derives .program p →
      Derives .program (s ++ .terminator :: p)
  -- statement := 'var' IDENT ':=' expression | expression
  | declaration {n e} : Derives .name n → Derives .expression e →
      Derives .statement (.var :: n ++ .assign :: e)
  | statement {e} : Derives .expression e → Derives .statement e
  -- expression := '[' (IDENT (',' IDENT)*)? ']' '->' polynomial | IDENT ':=' expression | term
  | lambda {ns p} : Derives (.list .name) ns → Derives .polynomial p →
      Derives .expression (.captureBegin :: ns ++ .captureEnd :: .arrow :: p)
  | reassignment {n e} : Derives .name n → Derives .expression e →
      Derives .expression (n ++ .assign :: e)
  | expression {ts} : Derives .term ts → Derives .expression ts
  -- term := addend (('+' | '-') addend)*
  | term {a as} : Derives .addend a → Derives .addends as → Derives .term (a ++ as)
  | noAddends : Derives .addends []
  | addends {op a as} : op ∈ sumTokens → Derives .addend a → Derives .addends as →
      Derives .addends (op :: a ++ as)
  -- addend := operand (('*' | '/' | '%') operand)*
  | addend {f fs} : Derives .operand f → Derives .factors fs → Derives .addend (f ++ fs)
  | noFactors : Derives .factors []
  | factors {op f fs} : op ∈ productTokens → Derives .operand f →
      Derives .factors fs → Derives .factors (op :: f ++ fs)
  -- operand := signedNumber
  --   | IDENT ['<' (signedNumber (',' signedNumber)*)? '>'] '(' (expression (',' expression)*)? ')'
  --   | IDENT | '(' expression ')'
  | signed {ts} : Derives .signedNumber ts → Derives .operand ts
  | call {n gs as} : Derives .name n → Derives .generics gs → Derives (.list .expression) as →
      Derives .operand (n ++ gs ++ .leftParen :: as ++ [.rightParen])
  | named {n} : Derives .name n → Derives .operand n
  | group {e} : Derives .expression e → Derives .operand (.leftParen :: e ++ [.rightParen])
  | noGenerics : Derives .generics []
  | generics {gs} : Derives (.list .signedNumber) gs →
      Derives .generics (.genericBegin :: gs ++ [.genericEnd])
  -- signedNumber := ['-'] NUMBER
  | positive {n} : Derives .number n → Derives .signedNumber n
  | negative {n} : Derives .number n → Derives .signedNumber (.minus :: n)
  -- polynomial := ['-'] component (('+' | '-') component)*
  | polynomial {c cs} : Derives .component c → Derives .components cs →
      Derives .polynomial (c ++ cs)
  | negatedPolynomial {c cs} : Derives .component c → Derives .components cs →
      Derives .polynomial (.minus :: c ++ cs)
  | noComponents : Derives .components []
  | components {op c cs} : op ∈ sumTokens → Derives .component c →
      Derives .components cs → Derives .components (op :: c ++ cs)
  -- component := IDENT [power] | operand (('*' | '/' | '%') operand)* [['*'] IDENT [power]]
  | bareUnknown {n e} : Derives .name n → Derives .power e → Derives .component (n ++ e)
  | component {f fs u} : Derives .operand f → Derives .factors fs → Derives .unknown u →
      Derives .component (f ++ fs ++ u)
  | noUnknown : Derives .unknown []
  | unknown {n e} : Derives .name n → Derives .power e → Derives .unknown (n ++ e)
  | timesUnknown {n e} : Derives .name n → Derives .power e →
      Derives .unknown (.star :: n ++ e)
  -- power := '^' '(' term ')'
  | noPower : Derives .power []
  | power {ts} : Derives .term ts →
      Derives .power (.caret :: .leftParen :: ts ++ [.rightParen])
  -- IDENT, NUMBER and lists
  | name (n : String) : Derives .name [.identifier n]
  | number (literal : String) : Derives .number [.number literal]
  | emptyList {i} : Derives (.list i) []
  | list {i a as} : Derives i.phrase a → Derives (.more i) as → Derives (.list i) (a ++ as)
  | noMore {i} : Derives (.more i) []
  | more {i a as} : Derives i.phrase a → Derives (.more i) as →
      Derives (.more i) (.comma :: a ++ as)

theorem Token.mem_sumTokens {t : Token} {op : Operator} (found : t.sumOperator? = some op) :
    t ∈ sumTokens := by
  cases t <;> simp [sumOperator?] at found <;> decide

theorem Token.mem_productTokens {t : Token} {op : Operator}
    (found : t.productOperator? = some op) : t ∈ productTokens := by
  cases t <;> simp [productOperator?] at found <;> decide

/-! ### Languages of what remains -/

/-- The token and then a list of the language. -/
def Token.Before (t : Token) (L : List Token → Prop) (ts : List Token) : Prop :=
  ∃ rest, ts = t :: rest ∧ L rest

/-- The phrase and then a list of the language. -/
def Phrase.Before (p : Phrase) (L : List Token → Prop) (ts : List Token) : Prop :=
  ∃ phrase rest, ts = phrase ++ rest ∧ Derives p phrase ∧ L rest

/-- What may follow the complete phrase that the pending work waits for. -/
def Pending.Follow : {s : Stage} → Pending s → List Token → Prop
  | _, .discard | _, .declare _ => Token.terminator.Before (Derives .program)
  | _, .group k => Token.rightParen.Before k.Follow
  | _, .argument _ k => (Phrase.more .expression).Before (Token.rightParen.Before k.Follow)
  | _, .into _ k => k.Follow
  | _, .whole k => k.Follow
  | _, .exponent _ _ _ k => Token.rightParen.Before (Phrase.components.Before k.Follow)
  | _, .firstAddend k | _, .addTo _ _ _ k => Phrase.addends.Before k.Follow
  | _, .firstFactor k | _, .multiplyInto _ _ _ k => Phrase.factors.Before k.Follow
  | _, .coefficient _ _ _ _ k =>
      Phrase.factors.Before (Phrase.unknown.Before (Phrase.components.Before k.Follow))

/-- The arguments of a call from the parenthesis on, and what may follow it. -/
def Pending.Arguments (k : Pending .operand) : List Token → Prop :=
  Token.leftParen.Before ((Phrase.list .expression).Before (Token.rightParen.Before k.Follow))

/-- A lambda from its arrow on, and what may follow it. -/
def Pending.Body (k : Pending .expression) : List Token → Prop :=
  Token.arrow.Before (Phrase.polynomial.Before k.Follow)

/-- The lists of remaining tokens that lead from the mode to the end of a
program. -/
def Mode.Accepts : Mode → List Token → Prop
  | .statement => Derives .program
  | .declareName => Phrase.name.Before
      (Token.assign.Before (Phrase.expression.Before (Token.terminator.Before (Derives .program))))
  | .declareSign _ => Token.assign.Before
      (Phrase.expression.Before (Token.terminator.Before (Derives .program)))
  | .expression k => Phrase.expression.Before k.Follow
  | .assignSign _ k => Token.assign.Before (Phrase.expression.Before k.Follow)
  | .operand k => Phrase.operand.Before k.Follow
  | .negated k => Phrase.number.Before k.Follow
  | .value _ k => k.Follow
  | .callee _ k => Phrase.generics.Before k.Arguments
  | .firstGeneric _ k =>
      (Phrase.list .signedNumber).Before (Token.genericEnd.Before k.Arguments)
  | .generic _ _ k => Phrase.signedNumber.Before
      ((Phrase.more .signedNumber).Before (Token.genericEnd.Before k.Arguments))
  | .negatedGeneric _ _ k => Phrase.number.Before
      ((Phrase.more .signedNumber).Before (Token.genericEnd.Before k.Arguments))
  | .afterGeneric _ _ k =>
      (Phrase.more .signedNumber).Before (Token.genericEnd.Before k.Arguments)
  | .openArguments _ k => k.Arguments
  | .firstArgument _ k => (Phrase.list .expression).Before (Token.rightParen.Before k.Follow)
  | .firstCapture _ k => (Phrase.list .name).Before (Token.captureEnd.Before k.Body)
  | .capture _ _ k => Phrase.name.Before
      ((Phrase.more .name).Before (Token.captureEnd.Before k.Body))
  | .afterCapture _ _ k => (Phrase.more .name).Before (Token.captureEnd.Before k.Body)
  | .arrow _ _ k => k.Body
  | .body _ k => Phrase.polynomial.Before k.Follow
  | .component _ _ k => Phrase.component.Before (Phrase.components.Before k.Follow)
  | .factor _ _ op _ k => fun ts =>
      Phrase.operand.Before
          (Phrase.factors.Before (Phrase.unknown.Before (Phrase.components.Before k.Follow))) ts ∨
        -- After `*` the variable may stand in place of a factor.
        op = .multiply ∧
          Phrase.name.Before (Phrase.power.Before (Phrase.components.Before k.Follow)) ts
  | .afterVariable _ _ k => Phrase.power.Before (Phrase.components.Before k.Follow)
  | .openExponent _ _ _ k => Token.leftParen.Before (Phrase.term.Before
      (Token.rightParen.Before (Phrase.components.Before k.Follow)))
  | .afterComponent _ k => Phrase.components.Before k.Follow

def Control.Accepts : Control → List Token → Prop
  | .mode m => m.Accepts
  | .deliver _ k => k.Follow

section

variable {p q r : Phrase} {L : List Token → Prop} {ts : List Token}

/-- A phrase that may be empty may be left out. -/
theorem Phrase.Before.skip (empty : Derives p []) (h : L ts) : p.Before L ts :=
  ⟨[], ts, rfl, empty, h⟩

/-- Two phrases that make up a third one. -/
theorem Phrase.Before.join
    (joined : ∀ {a b}, Derives p a → Derives q b → Derives r (a ++ b))
    (h : p.Before (q.Before L) ts) : r.Before L ts := by
  obtain ⟨a, _, rfl, first, b, rest, rfl, second, h⟩ := h
  exact ⟨a ++ b, rest, by rw [List.append_assoc], joined first second, h⟩

/-- A phrase that is of another kind as well. -/
theorem Phrase.Before.as (same : ∀ {a}, Derives p a → Derives q a) (h : p.Before L ts) :
    q.Before L ts := by
  obtain ⟨a, rest, rfl, derived, h⟩ := h
  exact ⟨a, rest, rfl, same derived, h⟩

end

/-! ### Transitions stay within the languages -/

section

variable {env : Env} {t next : Located} {c c' : Control} {m : Mode} {events : List Event}
  {ts : List Token}

/-- A transition that leaves the token in turn does not change what tokens remain:
what leads on from its target leads on from its source as well. -/
theorem Settles.accepts (settled : Settles env t next c events c') (h : c'.Accepts ts) :
    c.Accepts ts := by
  cases settled with
  | statement =>
      obtain ⟨e, _, rfl, derived, p, rfl, h⟩ := h
      exact .program (.statement derived) h
  | term => exact ((h.join .addend).join .term).as .expression
  | argument => exact h.join .list
  | generic => exact h.join .list
  | capture => exact h.join .list
  | body => exact h.join .polynomial
  | firstFactor =>
      obtain ⟨f, _, rfl, hf, fs, _, rfl, hfs, u, rest, rfl, hu, h⟩ := h
      exact ⟨f ++ fs ++ u, rest, by simp, .component hf hfs hu, h⟩
  | factor => exact .inl h
  | whole => exact .skip .noFactors (.skip .noAddends h)
  | constant => exact .skip .noFactors (.skip .noUnknown h)
  | linear => exact .skip .noPower h
  | built => exact .skip .noComponents h
  | multiply | add | assigned | declared => exact h

/-- A transition that uses up the token in turn adds it to what remains. Every case
is a rule of the grammar. -/
theorem Takes.accepts (taken : Takes env t next c events m) (more : t.token ≠ .endOfFile)
    (h : m.Accepts ts) : c.Accepts (t.token :: ts) := by
  cases taken with
  | finish found => exact absurd found more
  | var found =>
      rw [found]
      obtain ⟨n, _, rfl, hn, _, rfl, e, _, rfl, he, p, rfl, h⟩ := h
      show Derives .program _
      simpa using Derives.program (.declaration hn he) h
  -- tokens with a fixed place
  | declareSign found | terminator found | assignSign found | rightParen found
  | openArguments found | arrow found =>
      rw [found]
      exact ⟨ts, rfl, h⟩
  -- names and numbers by themselves
  | declareName found | captureName found =>
      rw [found]
      exact ⟨[_], ts, rfl, .name _, h⟩
  | negated found | genericNegated found =>
      rw [found]
      exact ⟨[_], ts, rfl, .number _, h⟩
  -- lists: there is no item, another item follows, or the list ends
  | noGenerics found | noArguments found | noCaptures found =>
      rw [found]
      exact .skip .emptyList ⟨ts, rfl, h⟩
  | genericComma found | comma found | captureComma found =>
      rw [found]
      obtain ⟨a, _, rfl, ha, as, rest, rfl, has, h⟩ := h
      exact ⟨_, rest, by simp, .more ha has, h⟩
  | genericEnd found | lastArgument found | captureEnd found =>
      rw [found]
      exact .skip .noMore ⟨ts, rfl, h⟩
  -- expressions
  | captureBegin found =>
      rw [found]
      obtain ⟨ns, _, rfl, hns, _, rfl, _, rfl, p, rest, rfl, hp, h⟩ := h
      exact ⟨_, rest, by simp, .lambda hns hp, h⟩
  | assignName found =>
      rw [found]
      obtain ⟨_, rfl, e, rest, rfl, he, h⟩ := h
      exact ⟨_, rest, rfl, .reassignment (.name _) he, h⟩
  | sumOperator _ found =>
      obtain ⟨a, _, rfl, ha, as, rest, rfl, has, h⟩ := h.join .addend
      exact .skip .noFactors ⟨_, rest, by simp, .addends (Token.mem_sumTokens found) ha has, h⟩
  | productOperator found =>
      obtain ⟨f, _, rfl, hf, fs, rest, rfl, hfs, h⟩ := h
      exact ⟨_, rest, by simp, .factors (Token.mem_productTokens found) hf hfs, h⟩
  -- operands
  | number found =>
      rw [found]
      exact ⟨[_], ts, rfl, .signed (.positive (.number _)), h⟩
  | minus found =>
      rw [found]
      obtain ⟨n, rest, rfl, hn, h⟩ := h
      exact ⟨_, rest, rfl, .signed (.negative hn), h⟩
  | name found =>
      rw [found]
      exact ⟨[_], ts, rfl, .named (.name _), h⟩
  | @callee name _ _ _ found =>
      rw [found]
      obtain ⟨gs, _, rfl, hgs, _, rfl, as, _, rfl, has, rest, rfl, h⟩ := h
      exact ⟨_, rest, by simp, .call (.name name) hgs has, h⟩
  | leftParen found =>
      rw [found]
      obtain ⟨e, _, rfl, he, rest, rfl, h⟩ := h
      exact ⟨_, rest, by simp, .group he, h⟩
  -- generic arguments
  | genericBegin found =>
      rw [found]
      obtain ⟨gs, _, rfl, hgs, rest, rfl, h⟩ := h
      exact ⟨_, rest, by simp, .generics hgs, h⟩
  | arguments found =>
      rw [found]
      exact .skip .noGenerics ⟨ts, rfl, h⟩
  | genericNumber found =>
      rw [found]
      exact ⟨[_], ts, rfl, .positive (.number _), h⟩
  | genericMinus found =>
      rw [found]
      obtain ⟨n, rest, rfl, hn, h⟩ := h
      exact ⟨_, rest, rfl, .negative hn, h⟩
  -- polynomials
  | bodyMinus found =>
      rw [found]
      obtain ⟨a, _, rfl, ha, as, rest, rfl, has, h⟩ := h
      exact ⟨_, rest, by simp, .negatedPolynomial ha has, h⟩
  | nextComponent found =>
      obtain ⟨a, _, rfl, ha, as, rest, rfl, has, h⟩ := h
      exact ⟨_, rest, by simp, .components (Token.mem_sumTokens found) ha has, h⟩
  | unknown found =>
      rw [found.1]
      obtain ⟨e, rest, rfl, he, h⟩ := h
      exact ⟨_, rest, rfl, .bareUnknown (.name _) he, h⟩
  | unknownFactor found =>
      rw [found.1]
      exact .inr ⟨rfl, [_], ts, rfl, .name _, h⟩
  | unknownAfter _ found =>
      rw [found.1]
      obtain ⟨e, rest, rfl, he, h⟩ := h
      exact .skip .noFactors ⟨_, rest, rfl, .unknown (.name _) he, h⟩
  | factorOperator _ found =>
      rcases h with h | ⟨times, h⟩
      · obtain ⟨f, _, rfl, hf, fs, rest, rfl, hfs, h⟩ := h
        exact ⟨_, rest, by simp, .factors (Token.mem_productTokens found) hf hfs, h⟩
      · -- The operator is the `*` between a coefficient and the variable.
        obtain ⟨n, _, rfl, hn, e, rest, rfl, he, h⟩ := h
        rw [times] at found
        have star : t.token = .star := by
          cases same : t.token <;> simp [same, Token.productOperator?] at found
          rfl
        rw [star]
        exact .skip .noFactors ⟨_, rest, by simp, .timesUnknown hn he, h⟩
  | caret found =>
      rw [found]
      obtain ⟨_, rfl, e, _, rfl, he, rest, rfl, h⟩ := h
      exact ⟨_, rest, by simp, .power he, h⟩
  | openExponent found =>
      rw [found]
      exact ⟨ts, rfl, (h.join .addend).join .term⟩
  | closeExponent found =>
      rw [found]
      exact .skip .noFactors (.skip .noAddends ⟨ts, rfl, h⟩)

/-- The token of a step and what leads on from its end lead on from its start. -/
theorem Reaches.accepts {result : Except Failure Mode}
    (reached : Reaches env t next c events result) (ok : result = .ok m)
    (more : t.token ≠ .endOfFile) (h : m.Accepts ts) : c.Accepts (t.token :: ts) := by
  induction reached with
  | settles settled _ ih => exact settled.accepts (ih ok)
  | takes taken =>
      cases ok
      exact taken.accepts more h
  | stops => cases ok

/-- Only between statements may the text end. -/
theorem Reaches.statement_of_endOfFile {result : Except Failure Mode}
    (reached : Reaches env t next c events result) (ok : result = .ok m)
    (ended : t.token = .endOfFile) : c = .mode .statement := by
  induction reached with
  | settles settled _ ih =>
      have atStatement := ih ok
      cases settled <;> cases atStatement
  | takes taken => exact (taken.at_end (.inl ended)).2 ended
  | stops => cases ok

end

/-- The tokens that an evaluation gets through lead from its mode to the end of a
program. -/
theorem evaluate_accepts {scopes : Scopes} {m : Mode} {words : List Located} {e : Located}
    (ended : e.token = .endOfFile) (proper : ∀ t ∈ words, t.token ≠ .endOfFile)
    (ok : (evaluate scopes m (words ++ [e])).result = .ok ()) :
    m.Accepts (words.map Located.token) := by
  induction words generalizing scopes m with
  | nil =>
      obtain ⟨m', stepped, -⟩ := evaluate_cons_ok ok
      have atStatement := (step_follows m).statement_of_endOfFile stepped ended
      cases atStatement
      exact .emptyProgram
  | cons t words ih =>
      obtain ⟨m', stepped, later⟩ := evaluate_cons_ok ok
      obtain ⟨first, rest⟩ := List.forall_mem_cons.mp proper
      exact (step_follows m).accepts stepped first (ih rest later)

/-! ### What the grammar rules out -/

/-- The closing tokens of lists. -/
def closers : List Token := [.rightParen, .genericEnd, .captureEnd]

/-- A comma stands right before the end of a list. -/
def TrailingComma (ts : List Token) : Prop :=
  ∃ before after, ∃ closer ∈ closers, ts = before ++ .comma :: closer :: after

/-- Every phrase with tokens starts with one that does not close a list and ends
with one that is not a comma, and a comma inside is followed by the next item. -/
structure Tidy (ts : List Token) : Prop where
  head : ∀ t ∈ ts.head?, t ∉ closers
  last : ∀ t ∈ ts.getLast?, t ≠ .comma
  commas : ts.IsChain fun a b => a = .comma → b ∉ closers

namespace Tidy

variable {a b : List Token} {t : Token}

theorem nil : Tidy [] := ⟨by simp, by simp, .nil⟩

theorem single (opens : t ∉ closers) (notComma : t ≠ .comma) : Tidy [t] :=
  ⟨by simpa using opens, by simpa using notComma, .singleton t⟩

theorem append (ha : Tidy a) (hb : Tidy b) : Tidy (a ++ b) := by
  refine ⟨?_, ?_, List.isChain_append.mpr ⟨ha.commas, hb.commas, ?_⟩⟩
  · intro t member
    rw [List.head?_append] at member
    cases first : a.head? with
    | none => exact hb.head t (by simpa [first] using member)
    | some t' => exact ha.head t (by simpa [first] using member)
  · intro t member
    rw [List.getLast?_append] at member
    cases final : b.getLast? with
    | none => exact ha.last t (by simpa [final] using member)
    | some t' => exact hb.last t (by simpa [final] using member)
  · intro x member y _ comma
    exact absurd comma (ha.last x member)

theorem cons (opens : t ∉ closers) (notComma : t ≠ .comma) (h : Tidy a) : Tidy (t :: a) :=
  append (single opens notComma) h

/-- A closing token may follow what is not empty and does not end in a comma. -/
theorem close (h : Tidy a) (notEmpty : a ≠ []) (notComma : t ≠ .comma) : Tidy (a ++ [t]) := by
  refine ⟨?_, by simpa using notComma, List.isChain_append.mpr ⟨h.commas, .singleton t, ?_⟩⟩
  · rw [List.head?_append_of_ne_nil _ notEmpty]
    exact h.head
  · intro x member y _ comma
    exact absurd comma (h.last x member)

/-- A closing token in the middle of a phrase. -/
theorem closeBefore (ha : Tidy a) (notEmpty : a ≠ []) (notComma : t ≠ .comma) (hb : Tidy b) :
    Tidy (a ++ t :: b) := by
  have closed := append (close ha notEmpty notComma) hb
  rwa [List.append_assoc] at closed

/-- A comma may stand before an item, which has a token. -/
theorem comma (h : Tidy a) (notEmpty : a ≠ []) : Tidy (.comma :: a) := by
  obtain ⟨first, rest, rfl⟩ := List.exists_cons_of_ne_nil notEmpty
  refine ⟨by simp [closers], ?_, ?_⟩
  · intro t member
    exact h.last t (by simpa using member)
  · exact List.isChain_cons_cons.mpr ⟨fun _ => h.head first rfl, h.commas⟩

theorem not_trailingComma (h : Tidy a) : ¬ TrailingComma a := by
  rintro ⟨before, after, closer, closes, rfl⟩
  have chain := (List.isChain_append.mp h.commas).2.1
  exact (List.isChain_cons_cons.mp chain).1 rfl closes

end Tidy

/-- Whether the phrase has at least one token. -/
def Phrase.isSolid : Phrase → Bool
  | program | addends | factors | generics | components | unknown | power | list _ | more _ => false
  | _ => true

theorem Item.phrase_isSolid (i : Item) : i.phrase.isSolid = true := by
  cases i <;> rfl

/-- The phrases that are not optional have a token. -/
theorem Derives.ne_nil {p : Phrase} {ts : List Token} (h : Derives p ts)
    (solid : p.isSolid = true) : ts ≠ [] := by
  induction h with
  | statement _ ih | expression _ ih | signed _ ih | named _ ih | positive _ ih => exact ih rfl
  | reassignment _ _ ih _ | term _ _ ih _ | addend _ _ ih _ | polynomial _ _ ih _
  | bareUnknown _ _ ih _ => exact List.append_ne_nil_of_left_ne_nil (ih rfl) _
  | component _ _ _ ih _ _ =>
      exact List.append_ne_nil_of_left_ne_nil (List.append_ne_nil_of_left_ne_nil (ih rfl) _) _
  | declaration | lambda | call | group | negative | negatedPolynomial | name | number => simp
  | emptyProgram | program | noAddends | addends | noFactors | factors | noGenerics | generics
  | noComponents | components | noUnknown | unknown | timesUnknown | noPower | power | emptyList
  | list | noMore | more => cases solid

/-- Every phrase is tidy, by induction on its derivation. Only the items of a list
stand after a comma. -/
theorem Derives.tidy {p : Phrase} {ts : List Token} (h : Derives p ts) : Tidy ts := by
  have sum : ∀ {op}, op ∈ sumTokens → op ∉ closers ∧ op ≠ .comma := by decide
  have product : ∀ {op}, op ∈ productTokens → op ∉ closers ∧ op ≠ .comma := by decide
  induction h with
  | statement _ ih | expression _ ih | signed _ ih | named _ ih | positive _ ih => exact ih
  | term _ _ ih₁ ih₂ | addend _ _ ih₁ ih₂ | polynomial _ _ ih₁ ih₂ | bareUnknown _ _ ih₁ ih₂
  | unknown _ _ ih₁ ih₂ | list _ _ ih₁ ih₂ => exact .append ih₁ ih₂
  | component _ _ _ ih₁ ih₂ ih₃ => exact .append (.append ih₁ ih₂) ih₃
  | program _ _ ih₁ ih₂ => exact .append ih₁ (.cons (by decide) (by decide) ih₂)
  | declaration _ _ ih₁ ih₂ =>
      exact .append (.cons (by decide) (by decide) ih₁) (.cons (by decide) (by decide) ih₂)
  | reassignment _ _ ih₁ ih₂ => exact .append ih₁ (.cons (by decide) (by decide) ih₂)
  | lambda _ _ ih₁ ih₂ =>
      exact .closeBefore (.cons (by decide) (by decide) ih₁) (by simp) (by decide)
        (.cons (by decide) (by decide) ih₂)
  | addends op _ _ ih₁ ih₂ => exact .append (.cons (sum op).1 (sum op).2 ih₁) ih₂
  | factors op _ _ ih₁ ih₂ => exact .append (.cons (product op).1 (product op).2 ih₁) ih₂
  | components op _ _ ih₁ ih₂ => exact .append (.cons (sum op).1 (sum op).2 ih₁) ih₂
  | call _ _ _ ih₁ ih₂ ih₃ =>
      exact .close (.append (.append ih₁ ih₂) (.cons (by decide) (by decide) ih₃)) (by simp)
        (by decide)
  | group _ ih | generics _ ih =>
      exact .close (.cons (by decide) (by decide) ih) (by simp) (by decide)
  | negative _ ih => exact .cons (by decide) (by decide) ih
  | negatedPolynomial _ _ ih₁ ih₂ | timesUnknown _ _ ih₁ ih₂ =>
      exact .append (.cons (by decide) (by decide) ih₁) ih₂
  | power _ ih =>
      exact .close (.cons (by decide) (by decide) (.cons (by decide) (by decide) ih)) (by simp)
        (by decide)
  | name | number => exact .single (by simp [closers]) (by simp)
  | more item _ ih₁ ih₂ =>
      exact .append (.comma ih₁ (item.ne_nil (Item.phrase_isSolid _))) ih₂
  | emptyProgram | noAddends | noFactors | noGenerics | noComponents | noUnknown | noPower
  | emptyList | noMore => exact .nil

/-- No rule has a stray character. -/
theorem Derives.stray_not_mem {p : Phrase} {ts : List Token} (h : Derives p ts) (c : Char) :
    .stray c ∉ ts := by
  have sum : ∀ {op}, op ∈ sumTokens → .stray c ≠ op := by simp [sumTokens]
  have product : ∀ {op}, op ∈ productTokens → .stray c ≠ op := by simp [productTokens]
  induction h with
  | addends op | components op => simp [sum op, *]
  | factors op => simp [product op, *]
  | _ => simp [*]

/-- A program is empty or ends with a terminator. -/
theorem Derives.program_ends {ts : List Token} (h : Derives .program ts) :
    ts = [] ∨ ts.getLast? = some .terminator := by
  generalize same : Phrase.program = p at h
  induction h with
  | emptyProgram => exact .inl rfl
  | program _ _ _ ih =>
      right
      rcases ih rfl with rfl | ends
      · simp
      · simp [List.getLast?_append, List.getLast?_cons, ends]
  | _ => cases same

/-! ### Programs -/

/-- A text that is evaluated to its end, in whatever environment, is a program of
the grammar. In particular it has no comma at the end of a list, no statement
without its terminator, and no stray character. -/
theorem program_derives (env : Env) (source : String)
    (ok : (program env source).result = .ok ()) :
    Derives .program (wordsOf source) ∧ ¬ TrailingComma (wordsOf source) ∧
      (wordsOf source = [] ∨ (wordsOf source).getLast? = some .terminator) ∧
      ∀ c, .stray c ∉ wordsOf source := by
  obtain ⟨words, q, scanned, same, proper⟩ := scan_words source
  rw [program_result, scanned] at ok
  have derived : Derives .program (words.map Located.token) := evaluate_accepts rfl proper ok
  rw [same]
  exact ⟨derived, derived.tidy.not_trailingComma, derived.program_ends, derived.stray_not_mem⟩

/-- A function is declared and called, and the last terminator stands below a comment. -/
theorem program_derives_lambda :
    (program .preloaded "var f := [x] -> 2 * x^(2) - 1;\nf(3) # 17\n;").result = .ok () ∧
      Derives .program (wordsOf "var f := [x] -> 2 * x^(2) - 1;\nf(3) # 17\n;") := by
  have ok :
      (program .preloaded "var f := [x] -> 2 * x^(2) - 1;\nf(3) # 17\n;").result = .ok () := by
    decide +kernel
  exact ⟨ok, (program_derives .preloaded _ ok).1⟩

end PolyCalc
