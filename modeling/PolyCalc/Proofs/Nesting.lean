import PolyCalc.Proofs.Transition

/-!
Lambda bodies and their scopes.

The environments of unfinished lambda bodies are kept in step with the pending
work: there is one for each body that the evaluation is inside of
(`Nested`). Every transition keeps it so. Outside all bodies there is only the
environment of the program, and that is where every statement ends
(`step_at_terminator`).
-/

namespace PolyCalc

/-- The number of lambda bodies around a value. -/
def Pending.depth : {s : Stage} → Pending s → Nat
  | _, .discard | _, .declare _ => 0
  | _, .group k | _, .argument _ k | _, .into _ k | _, .whole k | _, .firstAddend k
  | _, .addTo _ _ _ k | _, .firstFactor k | _, .multiplyInto _ _ _ k => k.depth
  | _, .exponent _ _ _ k | _, .coefficient _ _ _ _ k => k.depth + 1

/-- The number of lambda bodies that the evaluation is inside of. -/
def Mode.depth : Mode → Nat
  | .statement | .declareName | .declareSign _ => 0
  | .expression k | .assignSign _ k | .operand k | .negated k | .value _ k | .callee _ k
  | .firstGeneric _ k | .generic _ _ k | .negatedGeneric _ _ k | .afterGeneric _ _ k
  | .openArguments _ k | .firstArgument _ k | .firstCapture _ k | .capture _ _ k
  | .afterCapture _ _ k | .arrow _ _ k => k.depth
  | .body _ k | .component _ _ k | .factor _ _ _ _ k | .afterVariable _ _ k
  | .openExponent _ _ _ k | .afterComponent _ k => k.depth + 1

def Control.depth : Control → Nat
  | .mode m => m.depth
  | .deliver _ k => k.depth

/-- One environment for each of the given number of bodies. -/
def Nested (scopes : Scopes) (depth : Nat) : Prop := scopes.locals.length = depth

section

variable {env : Env} {t next : Located} {c c' : Control} {events : List Event}
  {scopes : Scopes} {m : Mode}

theorem Nested.define {depth : Nat} (h : Nested scopes depth) (name : String) (v : Value Float) :
    Nested (scopes.define name v) depth := by
  obtain ⟨globals, locals⟩ := scopes
  cases locals <;> exact h

/-- A lambda that is built leaves its body; the other transitions stay where they are. -/
theorem Settles.nested (settled : Settles env t next c events c') (h : Nested scopes c.depth) :
    Nested (scopes.replay events) c'.depth := by
  cases settled with
  | assigned | declared => exact h.define _ _
  | built =>
      show scopes.locals.tail.length = _
      rw [List.length_tail, h]
      rfl
  | _ => exact h

/-- The arrow of a lambda enters its body; the other transitions stay where they are. -/
theorem Takes.nested (taken : Takes env t next c events m) (h : Nested scopes c.depth) :
    Nested (scopes.replay events) m.depth := by
  cases taken with
  | noArguments | lastArgument => exact (Scopes.replay_printed scopes _).symm ▸ h
  | arrow => exact congrArg (· + 1) h
  | _ => exact h

theorem Reaches.nested {result : Except Failure Mode}
    (reached : Reaches env t next c events result) (ok : result = .ok m)
    (h : Nested scopes c.depth) : Nested (scopes.replay events) m.depth := by
  induction reached generalizing scopes with
  | settles settled _ ih =>
      rw [Scopes.replay_append]
      exact ih ok (settled.nested h)
  | takes taken =>
      cases ok
      exact taken.nested h
  | stops => cases ok

/-- A step keeps the environments in step with the bodies. -/
theorem step_nested (h : Nested scopes m.depth) {m' : Mode}
    (ok : (step scopes.current t next m).result = .ok m') :
    Nested (scopes.replay (effects (step scopes.current t next m).events)) m'.depth :=
  (step_follows m).nested ok h

/-- At its terminator a statement is outside all bodies. -/
theorem step_at_terminator (h : Nested scopes m.depth) (ended : t.token = .terminator)
    {m' : Mode} (ok : (step scopes.current t next m).result = .ok m') :
    m' = .statement ∧
      (scopes.replay (effects (step scopes.current t next m).events)).locals = [] := by
  have statement := (step_follows m).at_end ok (.inr ended)
  have nested := step_nested h ok
  rw [statement] at nested
  exact ⟨statement, List.eq_nil_of_length_eq_zero nested⟩

end

end PolyCalc
