import PolyCalc.Proofs.Bodies
import PolyCalc.Proofs.Frame

/-!
Captured names in lambda bodies.

A name is taken as the variable of a lambda if it has no value where it stands. Two
things follow from the way bodies get their environments. A body begins in a copy of the
environment around it, so the captured names of the lambdas around it have no value in
it either, and may be its variable (`program_variables`). And a captured name can be
reassigned like any other: from then on it has a value, for the rest of the body and no
further, and is a number like any other (`program_captures`).
-/

namespace PolyCalc

open Traced

/-! ### Names in the place of a variable -/

section

variable {env : Env} {t next : Located} {name : String}

theorem unknownName?_variable (found : IsVariable env t next name) :
    unknownName? env t next = see next >>= fun _ => pure (some name) := by
  obtain ⟨isName, alone, unbound⟩ := found
  simp only [unknownName?, isName, alone, unbound, if_true, Bool.false_eq_true, if_false]

theorem unknownName?_notCaptured (isName : t.token = .identifier name)
    (alone : next.token.opensCall = false) (valued : env.isUnbound name = false)
    (misused : env.contains name = false ∨ next.token = .caret) :
    unknownName? env t next = see next >>= fun _ => fail (.notCaptured name) t.line := by
  have reported : (!env.contains name || decide (next.token = .caret)) = true := by
    rcases misused with absent | caret
    · rw [absent]
      rfl
    · rw [decide_eq_true caret, Bool.or_true]
  simp only [unknownName?, isName, alone, valued, reported, if_true, Bool.false_eq_true, if_false]

theorem unknownName?_value {v : Value Float} (isName : t.token = .identifier name)
    (alone : next.token.opensCall = false) (bound : env.get name = .bound v)
    (linear : next.token ≠ .caret) :
    unknownName? env t next = see next >>= fun _ => pure none := by
  have valued : env.isUnbound name = false := by
    rw [Env.isUnbound, bound]
  have there : (!env.contains name || decide (next.token = .caret)) = false := by
    rw [Env.contains, bound, decide_eq_false linear]
    rfl
  simp only [unknownName?, isName, alone, valued, there, Bool.false_eq_true, if_false]

end

/-! ### Terms of lambdas -/

/-- The lambda, the sign and the context of a term that is about to begin. -/
def Mode.term? : Mode → Option (Lambda × Float × Pending .expression)
  | .body l k => some (l, 1.0, k)
  | .component l sign k => some (l, sign, k)
  | _ => none

/-- A lambda may have its variable here: at the start of a term, after an operator, and after
a number. -/
inductive Mode.AwaitsVariable : Mode → Prop where
  | body {l k} : AwaitsVariable (.body l k)
  | component {l sign k} : AwaitsVariable (.component l sign k)
  | factor {l sign op c k} : AwaitsVariable (.factor l sign op c k)
  | number {x l sign sofar line k} :
      AwaitsVariable (.value (.number x) (.coefficient l sign sofar line k))

section

variable {env : Env} {t next : Located} {name : String} {m : Mode} {l : Lambda} {sign : Float}
  {k : Pending .expression}

theorem Mode.lambdas_of_term? (place : m.term? = some (l, sign, k)) :
    m.lambdas = l :: k.lambdas := by
  cases m <;> cases place <;> rfl

theorem Mode.awaitsVariable_of_term? (place : m.term? = some (l, sign, k)) :
    m.AwaitsVariable := by
  cases m <;> cases place <;> constructor

/-- A name in turn begins a term without a sign of its own. -/
theorem step_term (place : m.term? = some (l, sign, k)) (isName : t.token = .identifier name) :
    step env t next m = componentStep env t next l sign k := by
  cases m <;> cases place
  · simp only [step, bodyStep, isName]
  · rfl

theorem step_variable (place : m.term? = some (l, sign, k))
    (found : IsVariable env t next name) :
    (step env t next m).result = ((l.use name).mapError (Failure.mk · t.line)).map
      (Mode.afterVariable · (sign * 1.0) k) := by
  rw [step_term place found.1, componentStep, unknownName?_variable found]
  show (takeVariable t next l name (sign * 1.0) k).result = _
  unfold takeVariable
  cases l.use name with
  | ok l' => rfl
  | error fault => rfl

theorem step_value {v : Value Float} (place : m.term? = some (l, sign, k))
    (isName : t.token = .identifier name) (alone : next.token.opensCall = false)
    (bound : env.get name = .bound v) (linear : next.token ≠ .caret) :
    (step env t next m).result = .ok (.value v (.coefficient l sign none t.line k)) := by
  have found : env.lookup name = .ok v := by
    rw [Env.lookup, bound]
  rw [step_term place isName, componentStep, unknownName?_value isName alone bound linear]
  show (factorStep env t next l sign none k).result = _
  rw [factorStep, unknownName?_value isName alone bound linear]
  show (operandStep env t next (.coefficient l sign none t.line k)).result = _
  simp only [operandStep, isName, found, alone, Bool.false_eq_true, if_false]
  rfl

theorem step_notCaptured (place : m.AwaitsVariable) (isName : t.token = .identifier name)
    (alone : next.token.opensCall = false) (valued : env.isUnbound name = false)
    (misused : env.contains name = false ∨ next.token = .caret) :
    (step env t next m).result = .error ⟨.notCaptured name, t.line⟩ := by
  have reports := unknownName?_notCaptured isName alone valued misused
  have factor (l sign sofar k) : (factorStep env t next l sign sofar k).result =
      .error ⟨.notCaptured name, t.line⟩ := by
    rw [factorStep, reports]
    rfl
  have component (l sign k) : (componentStep env t next l sign k).result =
      .error ⟨.notCaptured name, t.line⟩ := by
    rw [componentStep, reports]
    rfl
  cases place with
  | body =>
      rw [step_term rfl isName]
      exact component ..
  | component => exact component ..
  | factor =>
      show (afterOperatorStep env t next _ _ _ _ _).result = _
      unfold afterOperatorStep
      split
      · rw [reports]
        rfl
      · exact factor ..
  | number =>
      have noOperator : t.token.productOperator? = none := by
        rw [isName]
        rfl
      show (coefficientStep env t next (.number _) _ _ _ _ _).result = _
      simp only [coefficientStep, noOperator, reports]
      rfl

end

/-! ### Lambdas that are built -/

section

variable {env : Env} {t next : Located} {c : Control} {events : List Event}
  {result : Except Failure Mode} {captures : List String} {line : Nat} {q : Poly Float}

/-- Where a value is delivered no body ends any more. -/
theorem Reaches.not_built (reached : Reaches env t next c events result)
    (delivers : ∀ m, c ≠ .mode m) : .built captures line q ∉ events := by
  induction reached with
  | settles settled _ ih =>
      cases settled with
      | assigned | declared =>
          have later := ih fun m same => nomatch same
          simp [later]
      | _ => exact absurd rfl (delivers _)
  | takes taken =>
      cases taken with
      | terminator | rightParen | comma | lastArgument => simp
      | _ => exact absurd rfl (delivers _)
  | stops stopped => cases stopped <;> simp

/-- The lambda that is built is the innermost one. -/
theorem Reaches.built (reached : Reaches env t next c events result)
    (member : .built captures line q ∈ events) :
    ∃ l outer, c.lambdas = l :: outer ∧ l.captures = captures := by
  induction reached with
  | settles settled rest ih =>
      have still := @Reaches.not_built _ _ _ _ _ _ captures line q rest
      cases settled with
      | constant _ _ _ added | linear _ added =>
          obtain ⟨l', outer, top, same⟩ := ih member
          cases top
          exact ⟨_, _, rfl, (Lambda.add_fixed added).1.symm.trans same⟩
      | built =>
          rcases List.mem_append.mp member with now | later
          · cases List.mem_singleton.mp now
            exact ⟨_, _, rfl, rfl⟩
          · exact absurd later (still fun m same => nomatch same)
      | whole => exact absurd member (still fun m same => nomatch same)
      | assigned | declared =>
          rcases List.mem_append.mp member with now | later
          · cases List.mem_singleton.mp now
          · exact absurd later (still fun m same => nomatch same)
      | statement =>
          rcases List.mem_append.mp member with now | later
          · cases List.mem_singleton.mp now
          · exact ih later
      | _ => exact ih member
  | takes taken => cases taken <;> simp at member
  | stops stopped => cases stopped <;> simp at member

end

/-! ### Programs -/

/-- At every place of a text, from the initial environment: the variable of each lambda
under way is captured by it or by a lambda around it, and so by itself if it is the
outermost. The lambda that is built is the innermost one under way. A name that none of
them captures is reported in the place of a variable, if it is not there or has an
exponent. -/
theorem program_variables (source : String) (p : Parsing)
    (reached : Parsing.Reached .preloaded source p) :
    (∀ l outer, l :: outer <:+ p.mode.lambdas → ∀ name, l.unknown = some name →
        name ∈ (l :: outer).flatMap Lambda.captures) ∧
      (∀ captures line q, .built captures line q ∈ p.stepped.events →
        ∃ l outer, p.mode.lambdas = l :: outer ∧ l.captures = captures) ∧
      ∀ name, p.scanner.token = .identifier name → p.scanner.read.token.opensCall = false →
        p.mode.AwaitsVariable → name ∉ p.mode.lambdas.flatMap Lambda.captures →
        (p.scopes.current.contains name = false ∨ p.scanner.read.token = .caret) →
          p.stepped.result = .error ⟨.notCaptured name, p.scanner.line⟩ := by
  obtain ⟨events, after⟩ := reached.after
  have stands := after.stands
  refine ⟨?_, ?_, ?_⟩
  · intro l outer inside name isVariable
    rcases stands.captured l outer inside name isVariable with before | captured
    · exact absurd before (Env.preloaded_valued name)
    · exact captured
  · intro captures line q member
    rw [reached.stepped_eq] at member
    have effect : .built captures line q ∈ effects _ := List.mem_filter.mpr ⟨member, rfl⟩
    exact Reaches.built (step_follows p.mode) effect
  · intro name isName alone place other misused
    have valued : p.scopes.current.isUnbound name = false := by
      rw [← Bool.not_eq_true, Env.isUnbound_eq_true]
      intro unbound
      rcases stands.unbound unbound with before | captured
      · exact Env.preloaded_valued name before
      · exact other captured
    rw [reached.stepped_eq]
    exact step_notCaptured place isName alone valued misused

/-- The inner lambda captures `y` and has the variable `x` of the outer one. In the second text
`z` is captured by neither. -/
theorem program_variables_nested :
    (∃ p, Parsing.Reached .preloaded "print([x] -> print([y] -> x, 3) x);" p ∧
      ∃ l outer, p.mode.lambdas = l :: outer ∧ l.unknown = some "x" ∧
        "x" ∈ (l :: outer).flatMap Lambda.captures) ∧
      ∃ p, Parsing.Reached .preloaded "print([x] -> print([y] -> z, 3) x);" p ∧
        p.stepped.result = .error ⟨.notCaptured "z", p.scanner.line⟩ := by
  constructor
  · obtain ⟨events, p, after, holds⟩ :=
      @Parsing.exists_after .preloaded "print([x] -> print([y] -> x, 3) x);" 13
        (fun s => s.2.mode.lambdas.head?.any fun l => l.unknown == some "x") (by decide +kernel)
    obtain ⟨l, top, same⟩ := (Option.any_eq_true ..).mp holds
    obtain ⟨outer, lambdas⟩ := List.head?_eq_some_iff.mp top
    obtain ⟨captured, -⟩ := program_variables _ p after.reached
    have isVariable : l.unknown = some "x" := beq_iff_eq.mp same
    exact ⟨p, after.reached, l, outer, lambdas, isVariable,
      captured l outer (lambdas ▸ List.suffix_rfl) "x" isVariable⟩
  · obtain ⟨events, p, after, holds⟩ :=
      @Parsing.exists_after .preloaded "print([x] -> print([y] -> z, 3) x);" 12
        (fun s => s.2.mode.term?.isSome && s.2.scanner.token == .identifier "z" &&
          !s.2.scanner.read.token.opensCall && !s.2.scopes.current.contains "z" &&
          !(s.2.mode.lambdas.flatMap Lambda.captures).contains "z") (by decide +kernel)
    simp only [Bool.and_eq_true, beq_iff_eq, Bool.not_eq_true', Option.isSome_iff_exists] at holds
    obtain ⟨⟨⟨⟨⟨_, place⟩, isName⟩, alone⟩, absent⟩, other⟩ := holds
    obtain ⟨-, -, reports⟩ := program_variables _ p after.reached
    refine ⟨p, after.reached, reports "z" isName alone ?_ ?_ (.inl absent)⟩
    · exact Mode.awaitsVariable_of_term? place
    · intro captured
      rw [List.contains_iff_mem.mpr captured] at other
      cases other

/-- The inner lambda is a polynomial in a name that it does not capture. -/
theorem variable_not_captured :
    (program .preloaded "print([x] -> print([y] -> x, 3) x);").printed.map Value.text =
        ["f(x)=+x", "3", "f(x)=+3x"] ∧
      ∃ p, Parsing.Reached .preloaded "print([x] -> print([y] -> x, 3) x);" p ∧
        ∃ l ∈ p.mode.lambdas, l.unknown = some "x" ∧ "x" ∉ l.captures := by
  refine ⟨by decide +kernel, ?_⟩
  obtain ⟨events, p, after, holds⟩ :=
    @Parsing.exists_after .preloaded "print([x] -> print([y] -> x, 3) x);" 13
      (fun s => s.2.mode.lambdas.any fun l => l.unknown == some "x" && l.captures == ["y"])
      (by decide +kernel)
  obtain ⟨l, member, same⟩ := List.any_eq_true.mp holds
  rw [Bool.and_eq_true, beq_iff_eq, beq_iff_eq] at same
  refine ⟨p, after.reached, l, member, same.1, ?_⟩
  rw [same.2]
  decide

/-- Inside of its own body, a captured name is what the assignments in the body make of
it. -/
theorem Body.environments_binding (globals : Env) (bodies : List Body) :
    List.Forall₂ (fun b e => ∀ name ∈ b.captures, e.get name = b.binding name) bodies
      (environments globals bodies) := by
  induction bodies with
  | nil => exact .nil
  | cons b outer ih => exact .cons (fun name captured => get_env_of_mem captured _) ih

/-- At every place of a text, in any environment: the bodies that the journal leaves under way
are those of the lambdas under way. In the environment of each of them, a captured name has
no value until it is reassigned in that body, and then it has the last value assigned
there. At the beginning of a term a captured name that is not called is the variable as
long as it has no value. Once it has one it is a factor with that value, and with an
exponent it is reported as not captured. -/
theorem program_captures (env : Env) (source : String) (events : List Event) (p : Parsing)
    (after : Parsing.After env source events p) :
    .token (Parsing.start env source).scanner.located :: events <+: (program env source).journal ∧
      p.mode.lambdas.map Lambda.captures = (Body.afterAll [] events).map Body.captures ∧
      List.Forall₂ (fun b e => ∀ name ∈ b.captures, e.get name = b.binding name)
        (Body.afterAll [] events) p.scopes.locals ∧
      ∀ l sign k name, p.mode.term? = some (l, sign, k) → p.scanner.token = .identifier name →
        p.scanner.read.token.opensCall = false → name ∈ l.captures →
        ∃ b outer, Body.afterAll [] events = b :: outer ∧ b.captures = l.captures ∧
          (b.binding name = .unbound → p.stepped.result =
            ((l.use name).mapError (Failure.mk · p.scanner.line)).map
              (Mode.afterVariable · (sign * 1.0) k)) ∧
          ∀ v, b.binding name = .bound v →
            (p.scanner.read.token ≠ .caret → p.stepped.result =
              .ok (.value v (.coefficient l sign none p.scanner.line k))) ∧
            (p.scanner.read.token = .caret →
              p.stepped.result = .error ⟨.notCaptured name, p.scanner.line⟩) := by
  have stands := after.stands
  refine ⟨?_, stands.captures, ?_, ?_⟩
  · rw [after.program]
    exact List.prefix_append ..
  · rw [stands.locals]
    exact Body.environments_binding ..
  · intro l sign k name place isName alone captured
    have same := stands.captures
    rw [Mode.lambdas_of_term? place, List.map_cons] at same
    obtain ⟨b, outer, bodies, captures, -⟩ := List.map_eq_cons_iff.mp same.symm
    have binding : p.scopes.current.get name = b.binding name := by
      rw [Scopes.current, stands.locals, bodies]
      exact Body.get_env_of_mem (captures ▸ captured) _
    rw [after.reached.stepped_eq]
    refine ⟨b, outer, bodies, captures, ?_, fun v bound => ⟨?_, ?_⟩⟩
    · intro unbound
      have free := Env.isUnbound_eq_true.mpr (binding.trans unbound)
      exact step_variable place ⟨isName, alone, free⟩
    · intro linear
      exact step_value place isName alone (binding.trans bound) linear
    · intro caret
      have valued : p.scopes.current.isUnbound name = false := by
        rw [Env.isUnbound, binding, bound]
      exact step_notCaptured (Mode.awaitsVariable_of_term? place) isName alone valued (.inr caret)

/-- The second term begins with a captured name that the first one reassigns. -/
theorem program_captures_reassigned :
    ∃ events p, Parsing.After .preloaded "print([x] -> (x := 3) + x);" events p ∧
      ∃ l sign k v, p.mode.term? = some (l, sign, k) ∧ "x" ∈ l.captures ∧
        p.stepped.result = .ok (.value v (.coefficient l sign none p.scanner.line k)) := by
  obtain ⟨events, p, after, holds⟩ :=
    @Parsing.exists_after .preloaded "print([x] -> (x := 3) + x);" 12
      (fun s => s.2.mode.term?.any (fun term => term.1.captures == ["x"]) &&
        s.2.scanner.token == .identifier "x" && !s.2.scanner.read.token.opensCall &&
        s.2.scanner.read.token != .caret &&
        (Body.afterAll [] s.1).head?.any fun b => (b.assignments.lookup "x").isSome)
      (by decide +kernel)
  simp only [Bool.and_eq_true, beq_iff_eq, bne_iff_ne, Bool.not_eq_true', Option.any_eq_true,
    Option.isSome_iff_exists] at holds
  obtain ⟨⟨⟨⟨⟨⟨l, sign, k⟩, place, captures⟩, isName⟩, alone⟩, linear⟩, b, top, v, assigned⟩ :=
    holds
  have captured : "x" ∈ l.captures := by
    rw [captures]
    decide
  obtain ⟨-, -, -, terms⟩ := program_captures .preloaded _ events p after
  obtain ⟨_, outer, bodies, -, -, bound⟩ := terms l sign k "x" place isName alone captured
  rw [bodies] at top
  cases top
  have binding : b.binding "x" = .bound v := by
    rw [Body.binding, assigned]
    rfl
  exact ⟨events, p, after, l, sign, k, v, place, captured, (bound v binding).1 linear⟩

/-- A captured name has a value in its body. -/
theorem captured_not_unbound :
    (program .preloaded "print([x] -> (x := 3) + x);").printed.map Value.text = ["f(x)=+6"] ∧
      ∃ p, Parsing.Reached .preloaded "print([x] -> (x := 3) + x);" p ∧
        ∃ l outer, p.mode.lambdas = l :: outer ∧ "x" ∈ l.captures ∧
          p.scopes.current.isUnbound "x" = false := by
  refine ⟨by decide +kernel, ?_⟩
  obtain ⟨events, p, after, holds⟩ :=
    @Parsing.exists_after .preloaded "print([x] -> (x := 3) + x);" 12
      (fun s => s.2.mode.lambdas.head?.any (fun l => l.captures.contains "x") &&
        !s.2.scopes.current.isUnbound "x") (by decide +kernel)
  simp only [Bool.and_eq_true, Bool.not_eq_true', Option.any_eq_true] at holds
  obtain ⟨⟨l, top, captured⟩, valued⟩ := holds
  obtain ⟨outer, lambdas⟩ := List.head?_eq_some_iff.mp top
  exact ⟨p, after.reached, l, outer, lambdas, List.contains_iff_mem.mp captured, valued⟩

end PolyCalc
