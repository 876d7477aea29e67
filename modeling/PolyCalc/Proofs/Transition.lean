import PolyCalc.Proofs.Effects

/-!
What a step can do.

The step function decides everything about a token in one go: a value may be
multiplied into its product, added to its sum and assigned to names before the
token is used up. Here the same step is a chain of small transitions between
`Control`s. `Settles` lists what happens while the token in turn stays in turn,
`Takes` the ways to use it up, and `Stops` the ways to fail. A `Control` is a
mode, or the delivery of a value to the goal of its expression.

Main statement: every step is such a chain, with its effects (`step_follows`).
Invariants of evaluations are proved on the transitions, one case each.
-/

namespace PolyCalc

/-- Where a step is between two of its transitions. -/
inductive Control where
  | mode (m : Mode)
  /-- The value of an expression is about to go where its context puts it. -/
  | deliver (v : Value Float) (k : Pending .expression)

/-- The coefficient with one more factor. -/
def withFactor (sofar : Option (Operator × Float)) (x : Float) : Float :=
  match sofar with
  | none => x
  | some (op, lhs) => op.onScalars lhs x

/-- What has to follow the value of an expression, by where it goes. -/
def Pending.closer : Pending .goal → Expected
  | .discard | .declare _ => .exactly .terminator
  | .group _ => .exactly .rightParen
  | .argument .. => .separatorOr .rightParen

/-- A number in turn is converted in the mode. -/
def Mode.Converts : Mode → Prop
  | .operand _ | .negated _ | .generic .. | .negatedGeneric .. => True
  | _ => False

/-! ### Transitions -/

section

variable (env : Env) (t next : Located)

/-- The token in turn is a name without a value that is not called. -/
def IsVariable (name : String) : Prop :=
  t.token = .identifier name ∧ next.token.opensCall = false ∧ env.isUnbound name = true

/-- Transitions that leave the token in turn. -/
inductive Settles : Control → List Event → Control → Prop where
  | statement :
      Settles (.mode .statement) [.statement t.line] (.mode (.expression (.expression .discard)))
  | term {k} : Settles (.mode (.expression k)) [] (.mode (.operand (.firstOperand (.whole k))))
  | argument {call k} :
      Settles (.mode (.firstArgument call k)) []
        (.mode (.expression (.expression (.argument call k))))
  | generic {call k} : Settles (.mode (.firstGeneric call k)) [] (.mode (.generic call [] k))
  | capture {line k} : Settles (.mode (.firstCapture line k)) [] (.mode (.capture line [] k))
  | body {l k} : Settles (.mode (.body l k)) [] (.mode (.component l 1.0 k))
  | firstFactor {l sign k} : (∀ name, ¬ IsVariable env t next name) →
      Settles (.mode (.component l sign k)) []
        (.mode (.operand (.coefficient l sign none t.line k)))
  | factor {l sign op c k} : (op = .multiply → ∀ name, ¬ IsVariable env t next name) →
      Settles (.mode (.factor l sign op c k)) []
        (.mode (.operand (.coefficient l sign (some (op, c)) t.line k)))
  | multiply {op lhs v w line k} : op.apply lhs v = .ok w →
      Settles (.mode (.value v (.multiplyInto op lhs line k))) []
        (.mode (.value w (.firstFactor k)))
  | add {op lhs v w line k} : t.token.productOperator? = none → op.apply lhs v = .ok w →
      Settles (.mode (.value v (.firstFactor (.addTo op lhs line k)))) []
        (.mode (.value w (.firstOperand k)))
  | whole {v k} : t.token.productOperator? = none → t.token.sumOperator? = none →
      Settles (.mode (.value v (.firstOperand (.whole k)))) [] (.deliver v k)
  | constant {v x l l' sign sofar line k} : v.asNumber = .ok x →
      t.token.productOperator? = none → (∀ name, ¬ IsVariable env t next name) →
      l.add (sign * withFactor sofar x) 0 = .ok l' →
      Settles (.mode (.value v (.coefficient l sign sofar line k))) []
        (.mode (.afterComponent l' k))
  | linear {l l' c k} : t.token ≠ .caret → l.add c 1 = .ok l' →
      Settles (.mode (.afterVariable l c k)) [] (.mode (.afterComponent l' k))
  | built {l k} : t.token.sumOperator? = none →
      Settles (.mode (.afterComponent l k)) [.built l.captures l.line l.poly]
        (.deliver (.function l.poly) k)
  | assigned {v name targets k} :
      Settles (.deliver v (.into (name :: targets) k)) [.assigned name v]
        (.deliver v (.into targets k))
  | declared {v name} :
      Settles (.deliver v (.into [] (.declare name))) [.declared name v]
        (.deliver v (.into [] .discard))

/-- Transitions that use up the token in turn. -/
inductive Takes : Control → List Event → Mode → Prop where
  | finish : t.token = .endOfFile → Takes (.mode .statement) [] .statement
  | var : t.token = .var → Takes (.mode .statement) [.statement t.line] .declareName
  | declareName {name} : t.token = .identifier name → env.contains name = false →
      Takes (.mode .declareName) [] (.declareSign name)
  | declareSign {name} : t.token = .assign →
      Takes (.mode (.declareSign name)) [] (.expression (.expression (.declare name)))
  | terminator {v} : t.token = .terminator →
      Takes (.deliver v (.into [] .discard)) [] .statement
  | captureBegin {k} : t.token = .captureBegin →
      Takes (.mode (.expression k)) [] (.firstCapture t.line k)
  | assignName {name k} : t.token = .identifier name → next.token = .assign →
      env.contains name = true → Takes (.mode (.expression k)) [] (.assignSign name k)
  | assignSign {name targets k} : t.token = .assign →
      Takes (.mode (.assignSign name (.into targets k))) []
        (.expression (.into (name :: targets) k))
  -- operands
  | number {literal x k} : t.token = .number literal → Number.read? literal = some x →
      Takes (.mode (.operand k)) [] (.value (.number x) k)
  | minus {k} : t.token = .minus → Takes (.mode (.operand k)) [] (.negated k)
  | negated {literal x k} : t.token = .number literal → Number.read? literal = some x →
      Takes (.mode (.negated k)) [] (.value (.number (-x)) k)
  | name {name v k} : t.token = .identifier name → next.token.opensCall = false →
      env.lookup name = .ok v → Takes (.mode (.operand k)) [] (.value v k)
  | callee {name v c k} : t.token = .identifier name → next.token.opensCall = true →
      env.lookup name = .ok v → v.asCallable? = some c →
      Takes (.mode (.operand k)) [] (.callee ⟨name, c, t.line, []⟩ k)
  | leftParen {k} : t.token = .leftParen →
      Takes (.mode (.operand k)) [] (.expression (.expression (.group k)))
  | rightParen {v k} : t.token = .rightParen →
      Takes (.deliver v (.into [] (.group k))) [] (.value v k)
  | productOperator {v op k} : t.token.productOperator? = some op →
      Takes (.mode (.value v (.firstFactor k))) [] (.operand (.multiplyInto op v t.line k))
  | sumOperator {v op k} : t.token.productOperator? = none → t.token.sumOperator? = some op →
      Takes (.mode (.value v (.firstOperand k))) []
        (.operand (.firstFactor (.addTo op v t.line k)))
  -- calls
  | genericBegin {call k} : t.token = .genericBegin →
      Takes (.mode (.callee call k)) [] (.firstGeneric call k)
  | arguments {call k} : t.token = .leftParen →
      Takes (.mode (.callee call k)) [] (.firstArgument call k)
  | genericNumber {call generics literal x k} : t.token = .number literal →
      Number.read? literal = some x →
      Takes (.mode (.generic call generics k)) [] (.afterGeneric call (generics ++ [x]) k)
  | genericMinus {call generics k} : t.token = .minus →
      Takes (.mode (.generic call generics k)) [] (.negatedGeneric call generics k)
  | genericNegated {call generics literal x k} : t.token = .number literal →
      Number.read? literal = some x →
      Takes (.mode (.negatedGeneric call generics k)) []
        (.afterGeneric call (generics ++ [-x]) k)
  | genericComma {call generics k} : t.token = .comma →
      Takes (.mode (.afterGeneric call generics k)) [] (.generic call generics k)
  | noGenerics {call callee k} : t.token = .genericEnd →
      call.callee.specialize [] = .ok callee →
      Takes (.mode (.firstGeneric call k)) [] (.openArguments { call with callee } k)
  | genericEnd {call callee generics k} : t.token = .genericEnd →
      call.callee.specialize generics = .ok callee →
      Takes (.mode (.afterGeneric call generics k)) [] (.openArguments { call with callee } k)
  | openArguments {call k} : t.token = .leftParen →
      Takes (.mode (.openArguments call k)) [] (.firstArgument call k)
  | noArguments {call answer k} : t.token = .rightParen →
      call.callee.invoke call.args = .ok answer →
      Takes (.mode (.firstArgument call k))
        (.called call.name call.args.length :: answer.printed.map .printed)
        (.value answer.value k)
  | comma {v call k} : t.token = .comma →
      Takes (.deliver v (.into [] (.argument call k))) []
        (.expression (.expression (.argument (call.push v) k)))
  | lastArgument {v call answer k} : t.token = .rightParen →
      (call.push v).callee.invoke (call.push v).args = .ok answer →
      Takes (.deliver v (.into [] (.argument call k)))
        (.called (call.push v).name (call.push v).args.length :: answer.printed.map .printed)
        (.value answer.value k)
  -- lambdas
  | captureName {line names name k} : t.token = .identifier name →
      Takes (.mode (.capture line names k)) [] (.afterCapture line (names ++ [name]) k)
  | captureComma {line names k} : t.token = .comma →
      Takes (.mode (.afterCapture line names k)) [] (.capture line names k)
  | noCaptures {line k} : t.token = .captureEnd →
      Takes (.mode (.firstCapture line k)) [] (.arrow line [] k)
  | captureEnd {line names k} : t.token = .captureEnd →
      Takes (.mode (.afterCapture line names k)) [] (.arrow line names k)
  | arrow {line names k} : t.token = .arrow →
      Takes (.mode (.arrow line names k)) [.entered names] (.body (.start names line) k)
  | bodyMinus {l k} : t.token = .minus → Takes (.mode (.body l k)) [] (.component l (-1.0) k)
  | unknown {name l l' sign k} : IsVariable env t next name → l.use name = .ok l' →
      Takes (.mode (.component l sign k)) [] (.afterVariable l' (sign * 1.0) k)
  | unknownFactor {name l l' sign c k} : IsVariable env t next name → l.use name = .ok l' →
      Takes (.mode (.factor l sign .multiply c k)) [] (.afterVariable l' (sign * c) k)
  | unknownAfter {name v x l l' sign sofar line k} : v.asNumber = .ok x →
      IsVariable env t next name → l.use name = .ok l' →
      Takes (.mode (.value v (.coefficient l sign sofar line k))) []
        (.afterVariable l' (sign * withFactor sofar x) k)
  | factorOperator {v x op l sign sofar line k} : v.asNumber = .ok x →
      t.token.productOperator? = some op →
      Takes (.mode (.value v (.coefficient l sign sofar line k))) []
        (.factor l sign op (withFactor sofar x) k)
  | caret {l c k} : t.token = .caret →
      Takes (.mode (.afterVariable l c k)) [] (.openExponent l c t.line k)
  | openExponent {l c line k} : t.token = .leftParen →
      Takes (.mode (.openExponent l c line k)) []
        (.operand (.firstOperand (.exponent l c line k)))
  | closeExponent {v x power l l' c line k} : t.token = .rightParen → v.asNumber = .ok x →
      powerOf x = .ok power → l.add c power = .ok l' →
      Takes (.mode (.value v (.firstOperand (.exponent l c line k)))) [] (.afterComponent l' k)
  | nextComponent {op l k} : t.token.sumOperator? = some op →
      Takes (.mode (.afterComponent l k)) [] (.component l (if op = .add then 1.0 else -1.0) k)

/-- The ways to fail. -/
inductive Stops : Control → List Event → Failure → Prop where
  | unexpected {m expected failure} :
      (Traced.unexpected t expected : Traced Mode).result = .error failure →
      Stops (.mode m) [] failure
  | unclosed {v k failure} :
      (Traced.unexpected t k.closer : Traced Mode).result = .error failure →
      Stops (.deliver v (.into [] k)) [] failure
  | malformedNumber {m literal} : m.Converts → t.token = .number literal →
      Number.read? literal = none → Stops (.mode m) [] ⟨.malformedNumber literal, t.line⟩
  | redefined {name} : t.token = .identifier name → env.contains name = true →
      Stops (.mode .declareName) [] ⟨.redefinedName name, t.line⟩
  | undefined {name k} : t.token = .identifier name → env.contains name = false →
      Stops (.mode (.expression k)) [] ⟨.undefinedName name, t.line⟩
  | lookup {name fault k} : t.token = .identifier name → env.lookup name = .error fault →
      Stops (.mode (.operand k)) [] ⟨fault, t.line⟩
  | notCallable {name v k} : t.token = .identifier name → env.lookup name = .ok v →
      v.asCallable? = none → Stops (.mode (.operand k)) [] ⟨.notCallable name, t.line⟩
  | notCaptured {m name} : t.token = .identifier name → next.token.opensCall = false →
      env.isUnbound name = false → (env.contains name = false ∨ next.token = .caret) →
      Stops (.mode m) [] ⟨.notCaptured name, t.line⟩
  | mixedVariables {m name fault} {l : Lambda} : IsVariable env t next name →
      l.use name = .error fault → Stops (.mode m) [] ⟨fault, t.line⟩
  | multiply {op lhs v fault line k} : op.apply lhs v = .error fault →
      Stops (.mode (.value v (.multiplyInto op lhs line k))) [] ⟨fault, line⟩
  | add {op lhs v fault line k} : op.apply lhs v = .error fault →
      Stops (.mode (.value v (.firstFactor (.addTo op lhs line k)))) [] ⟨fault, line⟩
  | noGenerics {call fault k} : call.callee.specialize [] = .error fault →
      Stops (.mode (.firstGeneric call k)) [] ⟨fault, call.line⟩
  | genericEnd {call generics fault k} : call.callee.specialize generics = .error fault →
      Stops (.mode (.afterGeneric call generics k)) [] ⟨fault, call.line⟩
  | noArguments {call fault k} : call.callee.invoke call.args = .error fault →
      Stops (.mode (.firstArgument call k)) [.called call.name call.args.length]
        ⟨fault, call.line⟩
  | lastArgument {v call fault k} :
      (call.push v).callee.invoke (call.push v).args = .error fault →
      Stops (.deliver v (.into [] (.argument call k)))
        [.called (call.push v).name (call.push v).args.length] ⟨fault, (call.push v).line⟩
  | factor {v fault l sign sofar line k} : v.asNumber = .error fault →
      Stops (.mode (.value v (.coefficient l sign sofar line k))) [] ⟨fault, line⟩
  | constant {v l c fault sign sofar line k} : l.add c 0 = .error fault →
      Stops (.mode (.value v (.coefficient l sign sofar line k))) [] ⟨fault, t.line⟩
  | linear {l c fault k} : l.add c 1 = .error fault →
      Stops (.mode (.afterVariable l c k)) [] ⟨fault, t.line⟩
  | exponent {v fault l c line k} : v.asNumber = .error fault →
      Stops (.mode (.value v (.firstOperand (.exponent l c line k)))) [] ⟨fault, line⟩
  | power {v x fault l c line k} : powerOf x = .error fault →
      Stops (.mode (.value v (.firstOperand (.exponent l c line k)))) [] ⟨fault, line⟩
  | term {v x power fault l c line k} : powerOf x = .ok power → l.add c power = .error fault →
      Stops (.mode (.value v (.firstOperand (.exponent l c line k)))) [] ⟨fault, line⟩

/-- Chains of transitions to the end of the step. -/
inductive Reaches : Control → List Event → Except Failure Mode → Prop where
  | settles {c c' events events' result} : Settles env t next c events c' →
      Reaches c' events' result → Reaches c (events ++ events') result
  | takes {c events m} : Takes env t next c events m → Reaches c events (.ok m)
  | stops {c events failure} : Stops env t next c events failure →
      Reaches c events (.error failure)

/-- The computation does what some chain of transitions from the control does. -/
def Follows (c : Control) (x : Traced Mode) : Prop :=
  Reaches env t next c (effects x.events) x.result

end

/-! ### Steps as chains -/

section

open Traced

variable {env : Env} {t next : Located} {c c' : Control} {m : Mode} {α : Type}

namespace Follows

/-- A sight is no effect. -/
theorem see {a : Located} {f : Unit → Traced Mode} (rest : Follows env t next c (f ())) :
    Follows env t next c (see a >>= f) := rest

theorem takes {m : Mode} (taken : Takes env t next c [] m) :
    Follows env t next c (pure m) := Reaches.takes taken

theorem settles {x : Traced Mode} (settled : Settles env t next c [] c')
    (rest : Follows env t next c' x) : Follows env t next c x := Reaches.settles settled rest

theorem fail {fault : Fault} {line : Nat} (stopped : Stops env t next c [] ⟨fault, line⟩) :
    Follows env t next c (fail fault line) := Reaches.stops stopped

/-- Events other than sights are those of one transition. -/
theorem emit {events : List Event} {f : Unit → Traced Mode}
    (settled : Settles env t next c events c') (plain : effects events = events)
    (rest : Follows env t next c' (f ())) : Follows env t next c (emit events >>= f) := by
  unfold Follows
  rw [emit_bind, effects_append, plain]
  exact .settles settled rest

/-- A failed attempt stops, and what follows a success goes on from the same control. -/
theorem attempt {line : Nat} {r : Except Fault α} {f : α → Traced Mode}
    (stopped : ∀ fault, r = .error fault → Stops env t next c [] ⟨fault, line⟩)
    (rest : ∀ a, r = .ok a → Follows env t next c (f a)) :
    Follows env t next c (attempt line r >>= f) := by
  cases r with
  | ok a => exact rest a rfl
  | error fault => exact .stops (stopped fault rfl)

/-- An unexpected token stops where it may. -/
theorem unexpectedHere {expected : Expected}
    (stopped : ∀ failure, (Traced.unexpected t expected : Traced Mode).result = .error failure →
      Stops env t next c [] failure) : Follows env t next c (unexpected t expected) := by
  unfold Follows
  revert stopped
  unfold Traced.unexpected
  split <;> exact fun stopped => .stops (stopped _ rfl)

/-- An expected token is found, or the step stops. -/
theorem expectHere {token : Token} {expected : Expected} {f : Unit → Traced Mode}
    (stopped : ∀ failure, (Traced.unexpected t expected : Traced Mode).result = .error failure →
      Stops env t next c [] failure)
    (rest : t.token = token → Follows env t next c (f ())) :
    Follows env t next c (expect t next token expected >>= f) := by
  unfold PolyCalc.expect
  split
  · rename_i found
    exact see (rest found)
  · rw [unexpected_bind]
    exact unexpectedHere stopped

/-- An unexpected token stops in every mode. -/
theorem unexpected {expected : Expected} : Follows env t next (.mode m) (unexpected t expected) :=
  unexpectedHere fun _ => .unexpected

theorem expect {token : Token} {expected : Expected} {f : Unit → Traced Mode}
    (rest : t.token = token → Follows env t next (.mode m) (f ())) :
    Follows env t next (.mode m) (expect t next token expected >>= f) :=
  expectHere (fun _ => .unexpected) rest

/-- The token that has to follow a value is found, or the step stops. -/
theorem expectCloser {token : Token} {expected : Expected} {f : Unit → Traced Mode}
    {v : Value Float} {k : Pending .goal} (closer : k.closer = expected)
    (rest : t.token = token → Follows env t next (.deliver v (.into [] k)) (f ())) :
    Follows env t next (.deliver v (.into [] k)) (PolyCalc.expect t next token expected >>= f) := by
  subst closer
  exact expectHere (fun _ => .unclosed) rest

theorem literal {literal : String} {f : Float → Traced Mode} (converts : m.Converts)
    (found : t.token = .number literal)
    (rest : ∀ x, Number.read? literal = some x → Follows env t next (.mode m) (f x)) :
    Follows env t next (.mode m) (literalValue t literal >>= f) := by
  unfold literalValue
  split
  · rename_i x read
    exact rest x read
  · rename_i unread
    exact fail (.malformedNumber converts found unread)

/-- A name is the variable, or an operand, or not captured. -/
theorem unknownName {f : Option String → Traced Mode}
    (unknown : ∀ name, IsVariable env t next name → Follows env t next (.mode m) (f (some name)))
    (operand : (∀ name, ¬ IsVariable env t next name) → Follows env t next (.mode m) (f none)) :
    Follows env t next (.mode m) (unknownName? env t next >>= f) := by
  unfold unknownName?
  split
  · rename_i name found
    rw [bind_assoc]
    have only : ∀ other, IsVariable env t next other → other = name := by
      rintro other ⟨same, -⟩
      rw [found] at same
      cases same
      rfl
    by_cases opens : next.token.opensCall = true
    · rw [if_pos opens]
      refine see (operand ?_)
      rintro other ⟨-, closed, -⟩
      rw [opens] at closed
      cases closed
    have closed : next.token.opensCall = false := Bool.eq_false_iff.mpr opens
    rw [if_neg opens]
    by_cases unbound : env.isUnbound name = true
    · rw [if_pos unbound]
      exact see (unknown name ⟨found, closed, unbound⟩)
    · rw [if_neg unbound]
      split
      · rename_i missing
        refine see (fail (.notCaptured found closed (Bool.eq_false_iff.mpr unbound) ?_))
        simpa using missing
      · refine see (operand ?_)
        intro other taken
        obtain rfl := only other taken
        exact unbound taken.2.2
  · rename_i other
    refine operand ?_
    rintro name ⟨found, -⟩
    exact other name found

end Follows

open Follows

/-! One lemma for each part of the step function, in its order. -/

theorem operandStep_follows (k : Pending .operand) :
    Follows env t next (.mode (.operand k)) (operandStep env t next k) := by
  unfold operandStep
  split
  · rename_i literal found
    exact Follows.literal trivial found fun x read => see (takes (.number found read))
  · rename_i found
    exact see (takes (.minus found))
  · rename_i name found
    refine see (see (attempt (fun fault missing => .lookup found missing) fun v bound => ?_))
    by_cases opens : next.token.opensCall = true
    · rw [if_pos opens]
      split
      · rename_i callee callable
        exact takes (.callee found opens bound callable)
      · rename_i notCallable
        exact fail (.notCallable found bound notCallable)
    · rw [if_neg opens]
      exact takes (.name found (Bool.eq_false_iff.mpr opens) bound)
  · rename_i found
    exact see (takes (.leftParen found))
  · exact Follows.unexpected

theorem expressionStep_follows (k : Pending .expression) :
    Follows env t next (.mode (.expression k)) (expressionStep env t next k) := by
  have term : Follows env t next (.mode (.expression k))
      (operandStep env t next (.firstOperand (.whole k))) :=
    settles .term (operandStep_follows _)
  unfold expressionStep
  split
  · rename_i found
    exact see (takes (.captureBegin found))
  · rename_i name found
    refine see ?_
    split
    · rename_i assigns
      refine see ?_
      split
      · rename_i known
        exact takes (.assignName found assigns known)
      · rename_i unknown
        exact fail (.undefined found (Bool.eq_false_iff.mpr unknown))
    · exact term
  · exact term

theorem negatedStep_follows (k : Pending .operand) :
    Follows env t next (.mode (.negated k)) (negatedStep t next k) := by
  unfold negatedStep
  split
  · rename_i literal found
    exact Follows.literal trivial found fun x read => see (takes (.negated found read))
  · exact Follows.unexpected

/-! ### Calls -/

/-- The effects of a call, once it is known what it is done with. -/
theorem finishCall_follows {call : Call} {k : Pending .operand}
    (stopped : ∀ fault, call.callee.invoke call.args = .error fault →
      Stops env t next c [.called call.name call.args.length] ⟨fault, call.line⟩)
    (taken : ∀ answer, call.callee.invoke call.args = .ok answer →
      Takes env t next c (.called call.name call.args.length :: answer.printed.map .printed)
        (.value answer.value k)) :
    Follows env t next c (finishCall call k) := by
  unfold finishCall
  cases invoked : call.callee.invoke call.args with
  | error fault => exact Reaches.stops (stopped fault invoked)
  | ok answer =>
      have plain : effects (answer.printed.map .printed ++ []) = answer.printed.map .printed := by
        simp
      have reached := Reaches.takes (taken answer invoked)
      rw [← plain] at reached
      exact reached

theorem finishGenerics_follows {call : Call} {generics : List Float} {k : Pending .operand}
    (stopped : ∀ fault, call.callee.specialize generics = .error fault →
      Stops env t next c [] ⟨fault, call.line⟩)
    (taken : ∀ callee, call.callee.specialize generics = .ok callee →
      Takes env t next c [] (.openArguments { call with callee } k)) :
    Follows env t next c (finishGenerics call generics k) :=
  attempt stopped fun callee bound => takes (taken callee bound)

theorem calleeStep_follows (call : Call) (k : Pending .operand) :
    Follows env t next (.mode (.callee call k)) (calleeStep t next call k) := by
  unfold calleeStep
  split
  · rename_i found
    exact see (takes (.genericBegin found))
  · exact Follows.expect fun found => takes (.arguments found)

theorem genericStep_follows (call : Call) (generics : List Float) (k : Pending .operand) :
    Follows env t next (.mode (.generic call generics k)) (genericStep t next call generics k) := by
  unfold genericStep
  split
  · rename_i literal found
    exact Follows.literal trivial found fun x read => see (takes (.genericNumber found read))
  · rename_i found
    exact see (takes (.genericMinus found))
  · exact Follows.unexpected

theorem negatedGenericStep_follows (call : Call) (generics : List Float) (k : Pending .operand) :
    Follows env t next (.mode (.negatedGeneric call generics k))
      (negatedGenericStep t next call generics k) := by
  unfold negatedGenericStep
  split
  · rename_i literal found
    exact Follows.literal trivial found fun x read => see (takes (.genericNegated found read))
  · exact Follows.unexpected

theorem firstGenericStep_follows (call : Call) (k : Pending .operand) :
    Follows env t next (.mode (.firstGeneric call k)) (firstGenericStep t next call k) := by
  unfold firstGenericStep
  split
  · rename_i found
    exact see (finishGenerics_follows (fun _ => .noGenerics) fun _ => .noGenerics found)
  · exact settles .generic (genericStep_follows _ _ _)

theorem afterGenericStep_follows (call : Call) (generics : List Float) (k : Pending .operand) :
    Follows env t next (.mode (.afterGeneric call generics k))
      (afterGenericStep t next call generics k) := by
  unfold afterGenericStep
  split
  · rename_i found
    exact see (takes (.genericComma found))
  · exact Follows.expect fun found =>
      finishGenerics_follows (fun _ => .genericEnd) fun _ => .genericEnd found

theorem firstArgumentStep_follows (call : Call) (k : Pending .operand) :
    Follows env t next (.mode (.firstArgument call k)) (firstArgumentStep env t next call k) := by
  unfold firstArgumentStep
  split
  · rename_i found
    exact see (finishCall_follows (fun _ => .noArguments) fun _ => .noArguments found)
  · exact settles .argument (expressionStep_follows _)

/-! ### Where expressions go -/

theorem goalStep_follows (v : Value Float) (k : Pending .goal) :
    Follows env t next (.deliver v (.into [] k)) (goalStep t next v k) := by
  have discard : Follows env t next (.deliver v (.into [] .discard)) (goalStep t next v .discard) :=
    expectCloser rfl fun found => takes (.terminator found)
  cases k with
  | discard => exact discard
  | declare name => exact Follows.emit .declared rfl discard
  | group k => exact expectCloser rfl fun found => takes (.rightParen found)
  | argument call k =>
      simp only [goalStep]
      split
      · rename_i found
        exact see (takes (.comma found))
      · exact expectCloser rfl fun found =>
          finishCall_follows (fun _ => .lastArgument) fun _ => .lastArgument found

/-- A value goes through the names it is assigned to before it reaches its goal. -/
theorem deliver_follows (v : Value Float) (k : Pending .expression) :
    Follows env t next (.deliver v k) (deliver t next v k) := by
  cases k with
  | into targets k =>
      -- The names are assigned one after the other.
      induction targets with
      | nil => exact goalStep_follows v k
      | cons name targets ih => exact Reaches.settles .assigned ih

/-! ### Lambdas -/

theorem captureStep_follows (line : Nat) (names : List String) (k : Pending .expression) :
    Follows env t next (.mode (.capture line names k)) (captureStep t next line names k) := by
  unfold captureStep
  split
  · rename_i name found
    exact see (takes (.captureName found))
  · exact Follows.unexpected

theorem firstCaptureStep_follows (line : Nat) (k : Pending .expression) :
    Follows env t next (.mode (.firstCapture line k)) (firstCaptureStep t next line k) := by
  unfold firstCaptureStep
  split
  · rename_i found
    exact see (takes (.noCaptures found))
  · exact settles .capture (captureStep_follows _ _ _)

theorem afterCaptureStep_follows (line : Nat) (names : List String) (k : Pending .expression) :
    Follows env t next (.mode (.afterCapture line names k))
      (afterCaptureStep t next line names k) := by
  unfold afterCaptureStep
  split
  · rename_i found
    exact see (takes (.captureComma found))
  · exact Follows.expect fun found => takes (.captureEnd found)

theorem arrowStep_follows (line : Nat) (names : List String) (k : Pending .expression) :
    Follows env t next (.mode (.arrow line names k)) (arrowStep t next line names k) :=
  Follows.expect fun found => Reaches.takes (.arrow found)

theorem takeVariable_follows {l : Lambda} {name : String} {coefficient : Float}
    {k : Pending .expression} (taken : IsVariable env t next name)
    (used : ∀ l', l.use name = .ok l' →
      Takes env t next (.mode m) [] (.afterVariable l' coefficient k)) :
    Follows env t next (.mode m) (takeVariable t next l name coefficient k) :=
  attempt (fun _ mixed => .mixedVariables taken mixed) fun l' bound => see (takes (used l' bound))

/-- A factor is read as an operand, whether or not it is looked at as the variable
once more. -/
theorem factorStep_follows {l : Lambda} {sign : Float} {sofar : Option (Operator × Float)}
    {k : Pending .expression}
    (settled : Settles env t next (.mode m) []
      (.mode (.operand (.coefficient l sign sofar t.line k)))) :
    Follows env t next (.mode m) (factorStep env t next l sign sofar k) := by
  have operand : Follows env t next (.mode m)
      (operandStep env t next (.coefficient l sign sofar t.line k)) :=
    settles settled (operandStep_follows _)
  exact unknownName (fun _ _ => operand) fun _ => operand

theorem componentStep_follows (l : Lambda) (sign : Float) (k : Pending .expression) :
    Follows env t next (.mode (.component l sign k)) (componentStep env t next l sign k) :=
  unknownName
    (fun _ taken => see (takeVariable_follows taken fun _ used => .unknown taken used))
    fun operand => factorStep_follows (.firstFactor operand)

theorem bodyStep_follows (l : Lambda) (k : Pending .expression) :
    Follows env t next (.mode (.body l k)) (bodyStep env t next l k) := by
  unfold bodyStep
  split
  · rename_i found
    exact see (takes (.bodyMinus found))
  · exact settles .body (componentStep_follows _ _ _)

theorem afterOperatorStep_follows (l : Lambda) (sign : Float) (op : Operator)
    (coefficient : Float) (k : Pending .expression) :
    Follows env t next (.mode (.factor l sign op coefficient k))
      (afterOperatorStep env t next l sign op coefficient k) := by
  unfold afterOperatorStep
  split
  · rename_i times
    subst times
    exact unknownName
      (fun _ taken => see (takeVariable_follows taken fun _ used => .unknownFactor taken used))
      fun operand => factorStep_follows (.factor fun _ => operand)
  · rename_i other
    exact factorStep_follows (.factor fun times => absurd times other)

theorem afterComponentStep_follows (l : Lambda) (k : Pending .expression) :
    Follows env t next (.mode (.afterComponent l k)) (afterComponentStep t next l k) := by
  unfold afterComponentStep
  split
  · rename_i op found
    exact see (takes (.nextComponent found))
  · rename_i ended
    exact Follows.emit (.built ended) rfl (deliver_follows _ _)

theorem afterVariableStep_follows (l : Lambda) (coefficient : Float) (k : Pending .expression) :
    Follows env t next (.mode (.afterVariable l coefficient k))
      (afterVariableStep t next l coefficient k) := by
  unfold afterVariableStep
  split
  · rename_i found
    exact see (takes (.caret found))
  · rename_i ended
    exact attempt (fun _ => .linear) fun l' added =>
      settles (.linear ended added) (afterComponentStep_follows _ _)

theorem exponentStep_follows (v : Value Float) (l : Lambda) (coefficient : Float) (line : Nat)
    (k : Pending .expression) :
    Follows env t next (.mode (.value v (.firstOperand (.exponent l coefficient line k))))
      (exponentStep t next v l coefficient line k) :=
  attempt (fun _ => .exponent) fun _ isNumber =>
    Follows.expect fun found =>
      attempt (fun _ => .power) fun _ isPower =>
        attempt (fun _ => .term isPower) fun _ added =>
          takes (.closeExponent found isNumber isPower added)

/-- After a factor there may be an operator, the variable, or the end of the
component. -/
theorem coefficientStep_follows (v : Value Float) (l : Lambda) (sign : Float)
    (sofar : Option (Operator × Float)) (line : Nat) (k : Pending .expression) :
    Follows env t next (.mode (.value v (.coefficient l sign sofar line k)))
      (coefficientStep env t next v l sign sofar line k) := by
  refine attempt (fun _ => .factor) fun x isNumber => ?_
  dsimp only
  split
  · rename_i op found
    exact see (takes (.factorOperator isNumber found))
  · rename_i ended
    exact unknownName
      (fun _ taken => takeVariable_follows taken fun _ used => .unknownAfter isNumber taken used)
      fun operand => attempt (fun _ => .constant) fun l' added =>
        settles (.constant isNumber ended operand added) (afterComponentStep_follows _ _)

/-! ### After operands -/

theorem sumStep_follows (v : Value Float) (k : Pending .term)
    (ended : t.token.productOperator? = none) :
    Follows env t next (.mode (.value v (.firstOperand k))) (sumStep t next v k) := by
  unfold sumStep
  split
  · rename_i op found
    exact see (takes (.sumOperator ended found))
  · rename_i closed
    cases k with
    | whole k => exact settles (.whole ended closed) (deliver_follows _ _)
    | exponent l coefficient line k => exact exponentStep_follows _ _ _ _ _

/-- An addend ends where no operator of products follows, and is added then. -/
theorem productStep_follows (v : Value Float) (k : Pending .addend) :
    Follows env t next (.mode (.value v (.firstFactor k))) (productStep t next v k) := by
  unfold productStep
  split
  · rename_i op found
    exact see (takes (.productOperator found))
  · rename_i ended
    cases k with
    | firstAddend k => exact sumStep_follows _ _ ended
    | addTo op lhs line k =>
        exact attempt (fun _ => .add) fun w applied =>
          settles (.add ended applied) (sumStep_follows _ _ ended)

theorem valueStep_follows (v : Value Float) (k : Pending .operand) :
    Follows env t next (.mode (.value v k)) (valueStep env t next v k) := by
  cases k with
  | firstFactor k => exact productStep_follows _ _
  | multiplyInto op lhs line k =>
      exact attempt (fun _ => .multiply) fun w applied =>
        settles (.multiply applied) (productStep_follows _ _)
  | coefficient l sign sofar line k => exact coefficientStep_follows _ _ _ _ _ _

/-! ### Statements and all modes -/

theorem statementStep_follows :
    Follows env t next (.mode .statement) (statementStep env t next) := by
  unfold statementStep
  split
  · rename_i found
    exact takes (.finish found)
  · rename_i found
    exact Reaches.takes (.var found)
  · exact Follows.emit .statement rfl (expressionStep_follows _)

theorem declareNameStep_follows :
    Follows env t next (.mode .declareName) (declareNameStep env t next) := by
  unfold declareNameStep
  split
  · rename_i name found
    refine see ?_
    split
    · rename_i known
      exact fail (.redefined found known)
    · rename_i unknown
      exact takes (.declareName found (Bool.eq_false_iff.mpr unknown))
  · exact Follows.unexpected

/-- Every step is a chain of transitions. -/
theorem step_follows (m : Mode) : Follows env t next (.mode m) (step env t next m) := by
  cases m with
  | statement => exact statementStep_follows
  | declareName => exact declareNameStep_follows
  | declareSign name => exact Follows.expect fun found => takes (.declareSign found)
  | expression k => exact expressionStep_follows k
  | assignSign name k =>
      cases k with
      | into targets k => exact Follows.expect fun found => takes (.assignSign found)
  | operand k => exact operandStep_follows k
  | negated k => exact negatedStep_follows k
  | value v k => exact valueStep_follows v k
  | callee call k => exact calleeStep_follows call k
  | firstGeneric call k => exact firstGenericStep_follows call k
  | generic call generics k => exact genericStep_follows call generics k
  | negatedGeneric call generics k => exact negatedGenericStep_follows call generics k
  | afterGeneric call generics k => exact afterGenericStep_follows call generics k
  | openArguments call k => exact Follows.expect fun found => takes (.openArguments found)
  | firstArgument call k => exact firstArgumentStep_follows call k
  | firstCapture line k => exact firstCaptureStep_follows line k
  | capture line names k => exact captureStep_follows line names k
  | afterCapture line names k => exact afterCaptureStep_follows line names k
  | arrow line names k => exact arrowStep_follows line names k
  | body l k => exact bodyStep_follows l k
  | component l sign k => exact componentStep_follows l sign k
  | factor l sign op coefficient k => exact afterOperatorStep_follows l sign op coefficient k
  | afterVariable l coefficient k => exact afterVariableStep_follows l coefficient k
  | openExponent l coefficient line k =>
      exact Follows.expect fun found => takes (.openExponent found)
  | afterComponent l k => exact afterComponentStep_follows l k

/-! ### Ends -/

/-- A terminator or the end of the text leads to the next statement, and the text
ends only between statements. -/
theorem Takes.at_end {events : List Event} {m : Mode} (taken : Takes env t next c events m)
    (ended : t.token = .endOfFile ∨ t.token = .terminator) :
    m = .statement ∧ (t.token = .endOfFile → c = .mode .statement) := by
  cases taken with
  | finish => exact ⟨rfl, fun _ => rfl⟩
  | terminator found =>
      refine ⟨rfl, fun text => ?_⟩
      rw [found] at text
      cases text
  | unknown found | unknownFactor found | unknownAfter _ found => simp [found.1] at ended
  | productOperator found | sumOperator _ found | factorOperator _ found | nextComponent found =>
      rcases ended with ended | ended <;> simp [ended, Token.productOperator?,
        Token.sumOperator?] at found
  | var found | declareName found | declareSign found | captureBegin found
  | assignName found | assignSign found | number found | minus found | negated found
  | name found | callee found | leftParen found | rightParen found | genericBegin found
  | arguments found | genericNumber found | genericMinus found | genericNegated found
  | genericComma found | noGenerics found | genericEnd found | openArguments found
  | noArguments found | comma found | lastArgument found | captureName found
  | captureComma found | noCaptures found | captureEnd found | arrow found | bodyMinus found
  | caret found | openExponent found | closeExponent found => simp [found] at ended

/-- A step at a terminator or at the end of the text ends the statement or fails. -/
theorem Reaches.at_end {events : List Event} {result : Except Failure Mode} {m : Mode}
    (reached : Reaches env t next c events result) (ok : result = .ok m)
    (ended : t.token = .endOfFile ∨ t.token = .terminator) : m = .statement := by
  induction reached with
  | settles _ _ ih => exact ih ok
  | takes taken =>
      cases ok
      exact (taken.at_end ended).1
  | stops => cases ok

end

end PolyCalc
