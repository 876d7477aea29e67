import Mathlib.Logic.Relation
import PolyCalc.Proofs.Grammar
import PolyCalc.Proofs.OnDemand

/-!
Programs by recursive descent.

The evaluator keeps what is pending in its modes and takes one token after the other. Here
the same language is read by rules that call each other: a term asks for its first addend, an
operand in parentheses for an expression. A rule begins on the token in turn and leaves the
scanner on the first token after what it found.

Nothing bounds the calls from outside. The text of a rule (`body`) may call another rule only
with a reason why the recursion comes to an end (`Before`): at least one token was used up, or
the other rule is of lower rank on the same token. So a loop cannot go round and a rule
cannot call itself without using up a token, and `parse` is defined for all rules, on all
scanners. What a rule found carries the proof that the scanner has moved on.
-/

namespace PolyCalc

/-! ### Tokens that are used up -/

namespace Scanner

/-- The token in turn is used up. The end of the text never is. -/
def Consumes (s s' : Scanner) : Prop := s.token ≠ .endOfFile ∧ s' = s.read

/-- Tokens are used up in between, at least one. -/
def Passed : Scanner → Scanner → Prop := Relation.TransGen Consumes

/-- Tokens are used up in between, if any. -/
def Along : Scanner → Scanner → Prop := Relation.ReflTransGen Consumes

variable {s s' s'' : Scanner}

theorem Passed.trans (h : s.Passed s') (h' : s'.Passed s'') : s.Passed s'' :=
  Relation.TransGen.trans h h'

theorem Passed.along (h : s.Passed s') (h' : s'.Along s'') : s.Passed s'' :=
  Relation.TransGen.trans_left h h'

theorem Passed.weaken (h : s.Passed s') : s.Along s' := Relation.TransGen.to_reflTransGen h

theorem Along.refl (s : Scanner) : s.Along s := Relation.ReflTransGen.refl

theorem Passed.read (more : s.token ≠ .endOfFile) : s.Passed s.read := .single ⟨more, rfl⟩

theorem Passed.readsLeft_lt (h : s.Passed s') : s'.readsLeft < s.readsLeft := by
  induction h with
  | single consumed =>
      obtain ⟨more, rfl⟩ := consumed
      exact readsLeft_read more
  | tail _ consumed ih =>
      obtain ⟨more, rfl⟩ := consumed
      exact (readsLeft_read more).trans ih

/-- The scanner has read the token in turn. -/
def HasRead (s : Scanner) : Prop := ∃ s₀ : Scanner, s = s₀.read

theorem Passed.hasRead (h : s.Passed s') : s'.HasRead := by
  cases h with
  | single consumed => exact ⟨s, consumed.2⟩
  | tail _ consumed => exact ⟨_, consumed.2⟩

end Scanner

/-! ### Computations in scopes -/

/-- A computation that reads the scopes. Its own events change them for what follows. -/
def Scoped (α : Type) : Type := Scopes → Traced α

namespace Scoped

instance : Monad Scoped where
  pure a := fun _ => pure a
  bind x f := fun scopes => x scopes >>= fun a => f a (scopes.replay (x scopes).events)

instance : MonadLift Traced Scoped where
  monadLift x := fun _ => x

/-- The environment in use. -/
def environment : Scoped Env := fun scopes => pure scopes.current

end Scoped

namespace Descent

open Scanner Scoped Traced

/-! ### Single tokens -/

/-- What was found from `s` on, with the scanner after it. -/
structure Found (α : Type) (reach : Scanner → Scanner → Prop) (s : Scanner) where
  value : α
  scanner : Scanner
  reached : reach s scanner

/-- Uses up the token in turn. -/
def advance (s : Scanner) (more : s.token ≠ .endOfFile) : Scoped (Found Unit Passed s) := do
  see s.read.located
  return ⟨(), s.read, .read more⟩

/-- Uses up the token in turn if it is the given one. -/
def take (s : Scanner) (token : Token) (expected : Expected) (more : token ≠ .endOfFile) :
    Scoped (Found Unit Passed s) :=
  if found : s.token = token then advance s (found ▸ more) else unexpected s.located expected

/-- A name. -/
def identifier (s : Scanner) : Scoped (Found String Passed s) :=
  match found : s.token with
  | .identifier name => do
      let p ← advance s (by simp [found])
      return ⟨name, p.scanner, p.reached⟩
  | _ => unexpected s.located .identifier

/-- A number without a sign. -/
def literal (s : Scanner) : Scoped (Found Float Passed s) :=
  match found : s.token with
  | .number _ => do
      let x ← (⟨[], s.number⟩ : Traced Float)
      let p ← advance s (by simp [found])
      return ⟨x, p.scanner, p.reached⟩
  | _ => unexpected s.located .number

/-- The name in turn if it is to be taken as the variable of a lambda. -/
def unknown? (s : Scanner) : Scoped (Option String) := fun scopes =>
  unknownName? scopes.current s.located s.read.located

/-! ### Rules -/

/-- What an item of a list stands for. -/
abbrev ItemValue : Item → Type
  | .name => String
  | .signedNumber => Float
  | .expression => Value Float

/-- The token that ends a list: of captured names, of generic arguments or of arguments. -/
def closing : Item → Token
  | .name => .captureEnd
  | .signedNumber => .genericEnd
  | .expression => .rightParen

theorem closing_ne (i : Item) : closing i ≠ .endOfFile := by cases i <;> simp [closing]

/-- The rules of the grammar. Loops have rules of their own, with what they have so far. -/
inductive Rule where
  /-- Statements up to the end of the text. -/
  | statements
  | statement
  | expression
  | lambda
  | term
  /-- The addends after the first ones. -/
  | sum (sofar : Value Float)
  | addend
  /-- The factors after the first ones. -/
  | product (sofar : Value Float)
  | operand
  | signedNumber
  | call
  /-- The generic arguments of a call, if there are any. -/
  | generics (callee : Callable Float) (line : Nat)
  /-- A list after its opening token. -/
  | list (i : Item)
  /-- A list from an item on. -/
  | items (i : Item) (sofar : List (ItemValue i))
  | item (i : Item)
  /-- The terms of a lambda. -/
  | polynomial (l : Lambda)
  /-- The terms after the first ones. -/
  | components (l : Lambda)
  | component (l : Lambda) (sign : Float)
  | coefficient
  /-- The factors of a coefficient after the first ones. -/
  | factors (sofar : Float)
  | factor
  /-- The variable of a term, with its exponent. -/
  | power (l : Lambda) (coefficient : Float)
  /-- The exponent of a variable, if there is one. -/
  | exponent (line : Nat)

namespace Rule

/-- What a rule finds. -/
abbrev Result : Rule → Type
  | statements | statement => Unit
  | expression | lambda | term | sum _ | addend | product _ | operand | call => Value Float
  | signedNumber | coefficient | factors _ | factor => Float
  | generics .. => Callable Float
  | list i | items i _ => List (ItemValue i)
  | item i => ItemValue i
  | polynomial _ | components _ | component .. | power .. => Lambda
  | exponent _ => Nat

/-- Where a rule leaves the scanner. Rules for what may be missing may leave it where it is. -/
abbrev Reach : Rule → Scanner → Scanner → Prop
  | statements => fun s s' => s.Along s' ∧ s'.token = .endOfFile
  | sum _ | product _ | generics .. | components _ | factors _ | exponent _ => Along
  | statement | expression | lambda | term | addend | operand | signedNumber | call | list _
  | items .. | item _ | polynomial _ | component .. | coefficient | factor | power .. => Passed

/-- On the same token a rule may only call rules of lower rank. -/
def rank : Rule → Nat
  | list _ => 7
  | statements | items .. => 6
  | statement | item _ | polynomial _ => 5
  | expression | component .. => 4
  | term | coefficient => 3
  | addend | factor => 2
  | operand => 1
  | lambda | sum _ | product _ | signedNumber | call | generics .. | components _ | factors _
  | power .. | exponent _ => 0

end Rule

/-- Why a rule on a scanner may call another rule on another one. -/
inductive Before : Rule → Scanner → Rule → Scanner → Prop where
  /-- A token was used up. -/
  | passed {r r' : Rule} {s s' : Scanner} : s.Passed s' → Before r' s' r s
  /-- On the same token the other rule is of lower rank. -/
  | lower {r r' : Rule} {s : Scanner} : r'.rank < r.rank → Before r' s r s

/-- The rules that a rule may call. -/
abbrev Calls (r : Rule) (s : Scanner) : Type :=
  ∀ (r' : Rule) (s' : Scanner), Before r' s' r s → Scoped (Found r'.Result r'.Reach s')

theorem ne_end_of_sum {t : Token} {op : Operator} (found : t.sumOperator? = some op) :
    t ≠ .endOfFile := by
  rintro rfl
  cases found

theorem ne_end_of_product {t : Token} {op : Operator} (found : t.productOperator? = some op) :
    t ≠ .endOfFile := by
  rintro rfl
  cases found

/-- What a rule does. -/
def body : (r : Rule) → (s : Scanner) → Calls r s → Scoped (Found r.Result r.Reach s)
  | .statements, s, call =>
      if ended : s.token = .endOfFile then return ⟨(), s, .refl s, ended⟩
      else do
        emit [.statement s.line]
        let p ← call .statement s (.lower (Nat.lt_succ_self _))
        let q ← take p.scanner .terminator (.exactly .terminator) (by decide)
        have passed := p.reached.trans q.reached
        let r ← call .statements q.scanner (.passed passed)
        return ⟨(), r.scanner, (passed.along r.reached.1).weaken, r.reached.2⟩
  | .statement, s, call =>
      if found : s.token = .var then do
        let p ← advance s (by simp [found])
        let name ← identifier p.scanner
        let env ← environment
        if env.contains name.value then fail (.redefinedName name.value) p.scanner.line
        else do
          let q ← take name.scanner .assign (.exactly .assign) (by decide)
          have passed := (p.reached.trans name.reached).trans q.reached
          let v ← call .expression q.scanner (.passed passed)
          emit [.declared name.value v.value]
          return ⟨(), v.scanner, passed.trans v.reached⟩
      else do
        let v ← call .expression s (.lower (Nat.lt_succ_self _))
        return ⟨(), v.scanner, v.reached⟩
  | .expression, s, call =>
      match found : s.token with
      | .captureBegin => call .lambda s (.lower (Nat.zero_lt_succ _))
      | .identifier name => do
          -- An assignment differs from a term in its second token.
          see s.read.located
          if s.read.token = .assign then do
            let p ← advance s (by simp [found])
            let env ← environment
            if env.contains name then do
              let q ← take p.scanner .assign (.exactly .assign) (by decide)
              have passed := p.reached.trans q.reached
              let v ← call .expression q.scanner (.passed passed)
              emit [.assigned name v.value]
              return ⟨v.value, v.scanner, passed.trans v.reached⟩
            else fail (.undefinedName name) s.line
          else call .term s (.lower (Nat.lt_succ_self _))
      | _ => call .term s (.lower (Nat.lt_succ_self _))
  | .lambda, s, call =>
      if ended : s.token = .endOfFile then unexpected s.located .identifier
      else do
        let p ← advance s ended
        let names ← call (.list .name) p.scanner (.passed p.reached)
        let q ← take names.scanner .arrow (.exactly .arrow) (by decide)
        have passed := (p.reached.trans names.reached).trans q.reached
        emit [.entered names.value]
        let l ← call (.polynomial (.start names.value s.line)) q.scanner (.passed passed)
        emit [.built l.value.captures l.value.line l.value.poly]
        return ⟨.function l.value.poly, l.scanner, passed.trans l.reached⟩
  | .term, s, call => do
      let v ← call .addend s (.lower (Nat.lt_succ_self _))
      let w ← call (.sum v.value) v.scanner (.passed v.reached)
      return ⟨w.value, w.scanner, v.reached.along w.reached⟩
  | .sum sofar, s, call =>
      match found : s.token.sumOperator? with
      | some op => do
          let p ← advance s (ne_end_of_sum found)
          let rhs ← call .addend p.scanner (.passed p.reached)
          let v ← attempt s.line (op.apply sofar rhs.value)
          have passed := p.reached.trans rhs.reached
          let w ← call (.sum v) rhs.scanner (.passed passed)
          return ⟨w.value, w.scanner, (passed.along w.reached).weaken⟩
      | none => return ⟨sofar, s, .refl s⟩
  | .addend, s, call => do
      let v ← call .operand s (.lower (Nat.lt_succ_self _))
      let w ← call (.product v.value) v.scanner (.passed v.reached)
      return ⟨w.value, w.scanner, v.reached.along w.reached⟩
  | .product sofar, s, call =>
      match found : s.token.productOperator? with
      | some op => do
          let p ← advance s (ne_end_of_product found)
          let rhs ← call .operand p.scanner (.passed p.reached)
          let v ← attempt s.line (op.apply sofar rhs.value)
          have passed := p.reached.trans rhs.reached
          let w ← call (.product v) rhs.scanner (.passed passed)
          return ⟨w.value, w.scanner, (passed.along w.reached).weaken⟩
      | none => return ⟨sofar, s, .refl s⟩
  | .operand, s, call =>
      match found : s.token with
      | .number _ => do
          let x ← call .signedNumber s (.lower (Nat.zero_lt_succ _))
          return ⟨.number x.value, x.scanner, x.reached⟩
      | .minus => do
          let x ← call .signedNumber s (.lower (Nat.zero_lt_succ _))
          return ⟨.number x.value, x.scanner, x.reached⟩
      | .identifier name => do
          see s.read.located
          if s.read.token.opensCall then call .call s (.lower (Nat.zero_lt_succ _))
          else do
            let p ← advance s (by simp [found])
            let env ← environment
            let v ← attempt s.line (env.lookup name)
            return ⟨v, p.scanner, p.reached⟩
      | .leftParen => do
          let p ← advance s (by simp [found])
          let v ← call .expression p.scanner (.passed p.reached)
          let q ← take v.scanner .rightParen (.exactly .rightParen) (by decide)
          return ⟨v.value, q.scanner, (p.reached.trans v.reached).trans q.reached⟩
      | _ => unexpected s.located .operand
  | .signedNumber, s, _ =>
      if found : s.token = .minus then do
        let p ← advance s (by simp [found])
        let x ← literal p.scanner
        return ⟨-x.value, x.scanner, p.reached.trans x.reached⟩
      else literal s
  | .call, s, call => do
      let name ← identifier s
      let env ← environment
      let v ← attempt s.line (env.lookup name.value)
      match v.asCallable? with
      | none => fail (.notCallable name.value) s.line
      | some callee => do
          let special ← call (.generics callee s.line) name.scanner (.passed name.reached)
          let p ← take special.scanner .leftParen (.exactly .leftParen) (by decide)
          have passed := (name.reached.along special.reached).trans p.reached
          let args ← call (.list .expression) p.scanner (.passed passed)
          emit [.called name.value args.value.length]
          let answer ← attempt s.line (special.value.invoke args.value)
          emit (answer.printed.map .printed)
          return ⟨answer.value, args.scanner, passed.trans args.reached⟩
  | .generics callee line, s, call =>
      if found : s.token = .genericBegin then do
        let p ← advance s (by simp [found])
        let xs ← call (.list .signedNumber) p.scanner (.passed p.reached)
        let special ← attempt line (callee.specialize xs.value)
        return ⟨special, xs.scanner, (p.reached.trans xs.reached).weaken⟩
      else return ⟨callee, s, .refl s⟩
  | .list i, s, call =>
      if found : s.token = closing i then do
        let p ← advance s (found ▸ closing_ne i)
        return ⟨[], p.scanner, p.reached⟩
      else call (.items i []) s (.lower (Nat.lt_succ_self _))
  | .items i sofar, s, call => do
      let x ← call (.item i) s (.lower (Nat.lt_succ_self _))
      if found : x.scanner.token = .comma then do
        let p ← advance x.scanner (by simp [found])
        have passed := x.reached.trans p.reached
        let xs ← call (.items i (sofar ++ [x.value])) p.scanner (.passed passed)
        return ⟨xs.value, xs.scanner, passed.trans xs.reached⟩
      else do
        let p ← take x.scanner (closing i) (.separatorOr (closing i)) (closing_ne i)
        return ⟨sofar ++ [x.value], p.scanner, x.reached.trans p.reached⟩
  | .item .name, s, _ => identifier s
  | .item .signedNumber, s, call => call .signedNumber s (.lower (Nat.zero_lt_succ _))
  | .item .expression, s, call => call .expression s (.lower (Nat.lt_succ_self _))
  | .polynomial l, s, call =>
      if found : s.token = .minus then do
        let p ← advance s (by simp [found])
        let first ← call (.component l (-1.0)) p.scanner (.passed p.reached)
        have passed := p.reached.trans first.reached
        let all ← call (.components first.value) first.scanner (.passed passed)
        return ⟨all.value, all.scanner, passed.along all.reached⟩
      else do
        let first ← call (.component l 1.0) s (.lower (Nat.lt_succ_self _))
        let all ← call (.components first.value) first.scanner (.passed first.reached)
        return ⟨all.value, all.scanner, first.reached.along all.reached⟩
  | .components l, s, call =>
      match found : s.token.sumOperator? with
      | some op => do
          let p ← advance s (ne_end_of_sum found)
          let next ← call (.component l (if op = .add then 1.0 else -1.0)) p.scanner
            (.passed p.reached)
          have passed := p.reached.trans next.reached
          let all ← call (.components next.value) next.scanner (.passed passed)
          return ⟨all.value, all.scanner, (passed.along all.reached).weaken⟩
      | none => return ⟨l, s, .refl s⟩
  | .component l sign, s, call => do
      match ← unknown? s with
      | some _ => do
          -- The name is looked at again after the coefficient, which is missing.
          let _ ← unknown? s
          call (.power l (sign * 1.0)) s (.lower (Nat.zero_lt_succ _))
      | none => do
          let x ← call .coefficient s (.lower (Nat.lt_succ_self _))
          match ← unknown? x.scanner with
          | some _ => do
              let l ← call (.power l (sign * x.value)) x.scanner (.passed x.reached)
              return ⟨l.value, l.scanner, x.reached.trans l.reached⟩
          | none => do
              let l ← attempt x.scanner.line (l.add (sign * x.value) 0)
              return ⟨l, x.scanner, x.reached⟩
  | .coefficient, s, call => do
      let x ← call .factor s (.lower (Nat.lt_succ_self _))
      let y ← call (.factors x.value) x.scanner (.passed x.reached)
      return ⟨y.value, y.scanner, x.reached.along y.reached⟩
  | .factors sofar, s, call =>
      match found : s.token.productOperator? with
      | some op => do
          let p ← advance s (ne_end_of_product found)
          -- The variable after `*` belongs to the term, not to its coefficient.
          match ← (if op = .multiply then unknown? p.scanner else return none) with
          | some _ => return ⟨sofar, p.scanner, p.reached.weaken⟩
          | none => do
              let x ← call .factor p.scanner (.passed p.reached)
              have passed := p.reached.trans x.reached
              let y ← call (.factors (op.onScalars sofar x.value)) x.scanner (.passed passed)
              return ⟨y.value, y.scanner, (passed.along y.reached).weaken⟩
      | none => return ⟨sofar, s, .refl s⟩
  | .factor, s, call => do
      let _ ← unknown? s
      let v ← call .operand s (.lower (Nat.lt_succ_self _))
      let x ← attempt s.line v.value.asNumber
      return ⟨x, v.scanner, v.reached⟩
  | .power l coefficient, s, call =>
      match found : s.token with
      | .identifier name => do
          let l ← attempt s.line (l.use name)
          let p ← advance s (by simp [found])
          let e ← call (.exponent p.scanner.line) p.scanner (.passed p.reached)
          let l ← attempt p.scanner.line (l.add coefficient e.value)
          return ⟨l, e.scanner, p.reached.along e.reached⟩
      | _ => unexpected s.located .identifier
  | .exponent line, s, call =>
      if found : s.token = .caret then do
        let p ← advance s (by simp [found])
        let q ← take p.scanner .leftParen (.exactly .leftParen) (by decide)
        have passed := p.reached.trans q.reached
        let v ← call .term q.scanner (.passed passed)
        -- A number is required before `)`, a whole one only after it.
        let x ← attempt line v.value.asNumber
        let r ← take v.scanner .rightParen (.exactly .rightParen) (by decide)
        let degree ← attempt line (powerOf x)
        return ⟨degree, r.scanner, ((passed.trans v.reached).trans r.reached).weaken⟩
      else return ⟨1, s, .refl s⟩

theorem Before.decreases {r r' : Rule} {s s' : Scanner} (h : Before r' s' r s) :
    Prod.Lex (· < ·) (· < ·) (s'.readsLeft, r'.rank) (s.readsLeft, r.rank) := by
  cases h with
  | passed passed => exact .left _ _ passed.readsLeft_lt
  | lower lower => exact .right _ lower

/-- Reads what the rule describes, from the token in turn on. -/
def parse (r : Rule) (s : Scanner) : Scoped (Found r.Result r.Reach s) :=
  body r s fun r' s' _before => parse r' s'
termination_by (s.readsLeft, r.rank)
decreasing_by exact _before.decreases

end Descent

end PolyCalc
