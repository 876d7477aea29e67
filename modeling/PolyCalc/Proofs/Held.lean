import PolyCalc.Proofs.Transition
import PolyCalc.Proofs.WellFormed

/-!
What an evaluation holds.

Names hold values, and so do events, pending work and the arguments of calls under
way; the pending work holds lambdas as well, one for each body that is under way.
A property of values is `Inherited`, together with one of lambdas under way, if
numbers have it, if operators and calls pass it on, and if every lambda that is built
has it. Every transition keeps an inherited property of all that is held
(`Reaches.all`). Hence whatever an evaluation binds or prints has it, and it still
holds where the evaluation fails: it ends with one of the ways to fail, from a control
and an environment that only hold what has the property (`evaluate_all`).
-/

namespace PolyCalc

/-! ### Held values -/

/-- Every value that a name is bound to has the property. -/
def Env.All (P : Value Float → Prop) (env : Env) : Prop := ∀ name v, env.get name = .bound v → P v

/-- Every value of every environment has the property, also in bodies under way. -/
structure Scopes.All (P : Value Float → Prop) (s : Scopes) : Prop where
  globals : s.globals.All P
  locals : ∀ env ∈ s.locals, env.All P

/-- The value that an event binds or prints. -/
def Event.values : Event → List (Value Float)
  | .declared _ v | .assigned _ v | .printed v => [v]
  | .token _ | .statement _ | .called .. | .entered _ | .built .. => []

/-- The values that wait for another one. -/
def Pending.values : {s : Stage} → Pending s → List (Value Float)
  | _, .discard | _, .declare _ => []
  | _, .group k => k.values
  | _, .argument call k => call.args ++ k.values
  | _, .into _ k => k.values
  | _, .whole k => k.values
  | _, .exponent _ _ _ k => k.values
  | _, .firstAddend k => k.values
  | _, .addTo _ lhs _ k => lhs :: k.values
  | _, .firstFactor k => k.values
  | _, .multiplyInto _ lhs _ k => lhs :: k.values
  | _, .coefficient _ _ _ _ k => k.values

/-- The values that an evaluation holds between two tokens, those of names apart. -/
def Mode.values : Mode → List (Value Float)
  | .statement | .declareName | .declareSign _ => []
  | .expression k | .assignSign _ k => k.values
  | .operand k | .negated k => k.values
  | .value v k => v :: k.values
  | .callee call k | .firstGeneric call k | .generic call _ k | .negatedGeneric call _ k
  | .afterGeneric call _ k | .openArguments call k | .firstArgument call k =>
      call.args ++ k.values
  | .firstCapture _ k | .capture _ _ k | .afterCapture _ _ k | .arrow _ _ k => k.values
  | .body _ k | .component _ _ k | .factor _ _ _ _ k | .afterVariable _ _ k
  | .openExponent _ _ _ k | .afterComponent _ k => k.values

def Control.values : Control → List (Value Float)
  | .mode m => m.values
  | .deliver v k => v :: k.values

/-! ### Lambdas under way -/

/-- The lambdas whose bodies are around a value, the innermost first. -/
def Pending.lambdas : {s : Stage} → Pending s → List Lambda
  | _, .discard | _, .declare _ => []
  | _, .group k | _, .argument _ k | _, .into _ k | _, .whole k | _, .firstAddend k
  | _, .addTo _ _ _ k | _, .firstFactor k | _, .multiplyInto _ _ _ k => k.lambdas
  | _, .exponent l _ _ k | _, .coefficient l _ _ _ k => l :: k.lambdas

/-- The lambdas whose bodies the evaluation is inside of, the innermost first. -/
def Mode.lambdas : Mode → List Lambda
  | .statement | .declareName | .declareSign _ => []
  | .expression k | .assignSign _ k | .operand k | .negated k | .value _ k | .callee _ k
  | .firstGeneric _ k | .generic _ _ k | .negatedGeneric _ _ k | .afterGeneric _ _ k
  | .openArguments _ k | .firstArgument _ k | .firstCapture _ k | .capture _ _ k
  | .afterCapture _ _ k | .arrow _ _ k => k.lambdas
  | .body l k | .component l _ k | .factor l _ _ _ k | .afterVariable l _ k
  | .openExponent l _ _ k | .afterComponent l k => l :: k.lambdas

def Control.lambdas : Control → List Lambda
  | .mode m => m.lambdas
  | .deliver _ k => k.lambdas

/-- Whether the event begins or ends a body. -/
def Event.isBorder : Event → Bool
  | .entered _ | .built .. => true
  | _ => false

section

variable (env : Env) (t next : Located)

/-- All that a transition does to the lambdas under way. -/
inductive Turns : Control → List Event → List Lambda → Prop where
  | same {c events} : (∀ e ∈ events, e.isBorder = false) → Turns c events c.lambdas
  | added {m l l' outer c power} : m.lambdas = l :: outer → power ≤ maxDegree →
      l.add c power = .ok l' → Turns (.mode m) [] (l' :: outer)
  | used {m l l' outer name} : m.lambdas = l :: outer → IsVariable env t next name →
      l.use name = .ok l' → Turns (.mode m) [] (l' :: outer)
  | entered {m names line} : Turns (.mode m) [.entered names] (.start names line :: m.lambdas)
  | built {m l outer} : m.lambdas = l :: outer →
      Turns (.mode m) [.built l.captures l.line l.poly] outer

end

/-- The power of a variable has been checked. -/
theorem powerOf_le {x : Float} {power : Nat} (ok : powerOf x = .ok power) :
    power ≤ maxDegree := by
  unfold powerOf at ok
  split at ok
  · cases ok
  · obtain ⟨_, within, ok⟩ := bind_ok ok
    cases ok
    exact Poly.checkDegree_ok within

section

variable {env : Env} {t next : Located} {c c' : Control} {m : Mode} {events : List Event}

theorem Settles.turns (settled : Settles env t next c events c') :
    Turns env t next c events c'.lambdas := by
  cases settled with
  | statement => exact .same (by simp [Event.isBorder])
  | assigned | declared => exact .same (by simp [Event.isBorder])
  | constant _ _ _ added => exact .added rfl (Nat.zero_le _) added
  | linear _ added => exact .added rfl (by decide) added
  | built => exact .built rfl
  | term | argument | generic | capture | body | firstFactor | factor | multiply | add | whole =>
      exact .same (by simp)

theorem Takes.turns (taken : Takes env t next c events m) :
    Turns env t next c events m.lambdas := by
  cases taken with
  | var => exact .same (by simp [Event.isBorder])
  | noArguments | lastArgument => exact .same (by simp [Event.isBorder])
  | arrow => exact .entered
  | unknown found used => exact .used rfl found used
  | unknownFactor found used => exact .used rfl found used
  | unknownAfter _ found used => exact .used rfl found used
  | closeExponent _ _ isPower added => exact .added rfl (powerOf_le isPower) added
  | _ => exact .same (by simp)

end

/-! ### Inherited properties -/

/-- A property that new values have if the values they are made from have it, and one that
lambdas under way keep until they are built. -/
structure Inherited (P : Value Float → Prop) (Q : Lambda → Prop := fun _ => True) : Prop where
  number : ∀ x, P (.number x)
  start : ∀ names line, Q (.start names line)
  use : ∀ {l l' : Lambda} {name}, Q l → l.use name = .ok l' → Q l'
  add : ∀ {l l' : Lambda} {c power}, Q l → power ≤ maxDegree → l.add c power = .ok l' → Q l'
  lambda : ∀ {l : Lambda}, Q l → P (.function l.poly)
  apply : ∀ {op : Operator} {lhs rhs v}, P lhs → P rhs → op.apply lhs rhs = .ok v → P v
  invoke : ∀ {c : Callable Float} {args answer}, (∀ a ∈ args, P a) → c.invoke args = .ok answer →
    P answer.value ∧ ∀ v ∈ answer.printed, P v

/-- Every value and every lambda that is held has its property. -/
structure Control.All (P : Value Float → Prop) (Q : Lambda → Prop) (c : Control) : Prop where
  values : ∀ v ∈ c.values, P v
  lambdas : ∀ l ∈ c.lambdas, Q l

section

variable {P : Value Float → Prop} {Q : Lambda → Prop}

/-! ### Environments and scopes -/

namespace Env

variable {env : Env} {name : String} {v : Value Float}

theorem All.define (h : env.All P) (has : P v) : (env.define name v).All P := by
  intro other w bound
  rw [get_define] at bound
  split at bound
  · cases bound
    exact has
  · exact h other w bound

theorem All.declare (h : env.All P) (name : String) : (env.declare name).All P := by
  intro other w bound
  rw [get_declare] at bound
  split at bound
  · cases bound
  · exact h other w bound

theorem All.captures (h : env.All P) (captures : List String) :
    (captures.foldl Env.declare env).All P := by
  induction captures generalizing env with
  | nil => exact h
  | cons name captures ih => exact ih (h.declare name)

/-- What is found under a name has the property. -/
theorem All.lookup (h : env.All P) (found : env.lookup name = .ok v) : P v := by
  unfold Env.lookup at found
  split at found
  · rename_i bound
    cases found
    exact h name _ bound
  · cases found
  · cases found

end Env

namespace Scopes

variable {s : Scopes}

/-- Outside of bodies only names hold values. -/
theorem All.outermost {env : Env} (h : env.All P) : (⟨env, []⟩ : Scopes).All P := ⟨h, nofun⟩

theorem All.current (h : s.All P) : s.current.All P := by
  obtain ⟨globals, locals⟩ := s
  cases locals with
  | nil => exact h.globals
  | cons env outer => exact h.locals env List.mem_cons_self

theorem All.define {name : String} {v : Value Float} (h : s.All P) (has : P v) :
    (s.define name v).All P := by
  obtain ⟨globals, locals⟩ := s
  cases locals with
  | nil => exact ⟨h.globals.define has, h.locals⟩
  | cons env outer =>
      obtain ⟨first, rest⟩ := List.forall_mem_cons.mp h.locals
      exact ⟨h.globals, List.forall_mem_cons.mpr ⟨first.define has, rest⟩⟩

theorem All.after {e : Event} (h : s.All P) (has : ∀ v ∈ e.values, P v) : (s.after e).All P := by
  cases e with
  | declared name v => exact h.define (has v List.mem_cons_self)
  | assigned name v => exact h.define (has v List.mem_cons_self)
  | entered captures =>
      exact ⟨h.globals, List.forall_mem_cons.mpr ⟨h.current.captures captures, h.locals⟩⟩
  | built captures line p =>
      exact ⟨h.globals, fun env member => h.locals env (List.mem_of_mem_tail member)⟩
  | token | statement | called | printed => exact h

theorem All.replay {events : List Event} (h : s.All P) (has : ∀ e ∈ events, ∀ v ∈ e.values, P v) :
    (s.replay events).All P := by
  induction events generalizing s with
  | nil => exact h
  | cons e events ih =>
      obtain ⟨first, rest⟩ := List.forall_mem_cons.mp has
      exact ih (h.after first) rest

end Scopes

/-! ### Transitions -/

/-- Between two statements nothing is pending. -/
theorem Control.all_statement : (Control.mode .statement).All P Q := ⟨nofun, nofun⟩

variable {env : Env} {t next : Located} {c c' : Control} {m : Mode} {events : List Event}

/-- Lambdas keep their property, whatever a transition does to them. -/
theorem Turns.all {ls : List Lambda} (inherited : Inherited P Q)
    (turns : Turns env t next c events ls) (h : ∀ l ∈ c.lambdas, Q l) : ∀ l ∈ ls, Q l := by
  cases turns with
  | same => exact h
  | added top within added =>
      rw [Control.lambdas, top] at h
      obtain ⟨l, outer⟩ := List.forall_mem_cons.mp h
      exact List.forall_mem_cons.mpr ⟨inherited.add l within added, outer⟩
  | used top _ used =>
      rw [Control.lambdas, top] at h
      obtain ⟨l, outer⟩ := List.forall_mem_cons.mp h
      exact List.forall_mem_cons.mpr ⟨inherited.use l used, outer⟩
  | entered => exact List.forall_mem_cons.mpr ⟨inherited.start _ _, h⟩
  | built top =>
      rw [Control.lambdas, top] at h
      exact (List.forall_mem_cons.mp h).2

/-- New values come from operators and from lambdas that are built. -/
theorem Settles.all (inherited : Inherited P Q) (settled : Settles env t next c events c')
    (h : c.All P Q) : c'.All P Q ∧ ∀ e ∈ events, ∀ v ∈ e.values, P v := by
  have lambdas := settled.turns.all inherited h.lambdas
  have values := h.values
  cases settled with
  | statement => exact ⟨⟨values, lambdas⟩, by simp [Event.values]⟩
  | multiply applied | add _ applied =>
      obtain ⟨v, rest⟩ := List.forall_mem_cons.mp values
      obtain ⟨lhs, k⟩ := List.forall_mem_cons.mp rest
      have new := inherited.apply lhs v applied
      exact ⟨⟨List.forall_mem_cons.mpr ⟨new, k⟩, lambdas⟩, by simp⟩
  | constant => exact ⟨⟨(List.forall_mem_cons.mp values).2, lambdas⟩, by simp⟩
  | built =>
      have new := inherited.lambda (h.lambdas _ List.mem_cons_self)
      exact ⟨⟨List.forall_mem_cons.mpr ⟨new, values⟩, lambdas⟩, by simp [Event.values]⟩
  | assigned | declared =>
      have v := (List.forall_mem_cons.mp values).1
      exact ⟨⟨values, lambdas⟩, by simpa [Event.values] using v⟩
  | term | argument | generic | capture | body | firstFactor | factor | whole | linear =>
      exact ⟨⟨values, lambdas⟩, by simp⟩

/-- The events of a call hold what its answer prints. -/
theorem all_called {printed : List (Value Float)} (has : ∀ v ∈ printed, P v) (name : String)
    (count : Nat) : ∀ e ∈ Event.called name count :: printed.map .printed, ∀ v ∈ e.values, P v := by
  intro e member
  rcases List.mem_cons.mp member with rfl | member
  · simp [Event.values]
  · obtain ⟨v, shown, rfl⟩ := List.mem_map.mp member
    simpa [Event.values] using has v shown

/-- New values come from literals, names, and calls. -/
theorem Takes.all (inherited : Inherited P Q) (taken : Takes env t next c events m)
    (henv : env.All P) (h : c.All P Q) :
    (Control.mode m).All P Q ∧ ∀ e ∈ events, ∀ v ∈ e.values, P v := by
  have lambdas := taken.turns.all inherited h.lambdas
  have values := h.values
  cases taken with
  | finish | declareName | declareSign | terminator =>
      exact ⟨⟨fun v member => (nomatch member), lambdas⟩, by simp⟩
  | var => exact ⟨⟨fun v member => (nomatch member), lambdas⟩, by simp [Event.values]⟩
  | number | negated =>
      exact ⟨⟨List.forall_mem_cons.mpr ⟨inherited.number _, values⟩, lambdas⟩, by simp⟩
  | name _ _ found =>
      exact ⟨⟨List.forall_mem_cons.mpr ⟨henv.lookup found, values⟩, lambdas⟩, by simp⟩
  | noArguments _ invoked =>
      obtain ⟨args, k⟩ := List.forall_mem_append.mp values
      obtain ⟨value, printed⟩ := inherited.invoke args invoked
      exact ⟨⟨List.forall_mem_cons.mpr ⟨value, k⟩, lambdas⟩, all_called printed _ _⟩
  | @comma v call k =>
      obtain ⟨v, rest⟩ := List.forall_mem_cons.mp values
      obtain ⟨args, k⟩ := List.forall_mem_append.mp rest
      have pushed := List.forall_mem_append.mpr ⟨args, List.forall_mem_singleton.mpr v⟩
      exact ⟨⟨List.forall_mem_append.mpr ⟨pushed, k⟩, lambdas⟩, by simp⟩
  | @lastArgument v call answer k _ invoked =>
      obtain ⟨v, rest⟩ := List.forall_mem_cons.mp values
      obtain ⟨args, k⟩ := List.forall_mem_append.mp rest
      have pushed := List.forall_mem_append.mpr ⟨args, List.forall_mem_singleton.mpr v⟩
      obtain ⟨value, printed⟩ := inherited.invoke pushed invoked
      exact ⟨⟨List.forall_mem_cons.mpr ⟨value, k⟩, lambdas⟩, all_called printed _ _⟩
  | arrow => exact ⟨⟨values, lambdas⟩, by simp [Event.values]⟩
  | unknownAfter | factorOperator | closeExponent =>
      exact ⟨⟨(List.forall_mem_cons.mp values).2, lambdas⟩, by simp⟩
  -- The others only move what is pending.
  | callee | captureBegin | assignName | assignSign | minus | leftParen | rightParen
  | productOperator | sumOperator | genericBegin | arguments | genericNumber | genericMinus
  | genericNegated | genericComma | noGenerics | genericEnd | openArguments | captureName
  | captureComma | noCaptures | captureEnd | bodyMinus | unknown | unknownFactor | caret
  | openExponent | nextComponent => exact ⟨⟨values, lambdas⟩, by simp⟩

/-- A transition that fails binds and prints nothing. -/
theorem Stops.values_eq_nil {failure : Failure} (stopped : Stops env t next c events failure) :
    ∀ e ∈ events, e.values = [] := by
  cases stopped <;> simp [Event.values]

/-- A step hands an inherited property on to its events and to the next mode, or it fails
where all that is held still has it. -/
theorem Reaches.all {result : Except Failure Mode} (inherited : Inherited P Q)
    (reached : Reaches env t next c events result) (henv : env.All P) (h : c.All P Q) :
    (∀ e ∈ events, ∀ v ∈ e.values, P v) ∧
      ((∃ m, result = .ok m ∧ (Control.mode m).All P Q) ∨
        ∃ failure c' events', result = .error failure ∧ c'.All P Q ∧
          Stops env t next c' events' failure) := by
  induction reached with
  | settles settled _ ih =>
      obtain ⟨after, first⟩ := settled.all inherited h
      obtain ⟨rest, result⟩ := ih after
      exact ⟨List.forall_mem_append.mpr ⟨first, rest⟩, result⟩
  | takes taken =>
      obtain ⟨mode, events⟩ := taken.all inherited henv h
      exact ⟨events, .inl ⟨_, rfl, mode⟩⟩
  | stops stopped =>
      refine ⟨fun e member v held => ?_, .inr ⟨_, _, _, rfl, h, stopped⟩⟩
      rw [stopped.values_eq_nil e member] at held
      cases held

end

/-! ### Runs -/

/-- Along a whole evaluation, by induction on the tokens: whatever is bound or printed has the
property, also in the bodies of lambdas and before a failure, and so has all that is held
where the evaluation fails. -/
theorem evaluate_all {P : Value Float → Prop} {Q : Lambda → Prop} (inherited : Inherited P Q)
    {scopes : Scopes} {m : Mode} {tokens : List Located} (hscopes : scopes.All P)
    (h : (Control.mode m).All P Q) :
    (∀ e ∈ effects (evaluate scopes m tokens).journal, ∀ v ∈ e.values, P v) ∧
      ∀ failure, (evaluate scopes m tokens).result = .error failure →
        ∃ env c events, ∃ t ∈ tokens, ∃ next, env.All P ∧ c.All P Q ∧
          Stops env t next c events failure := by
  induction tokens generalizing scopes m with
  | nil => exact ⟨fun _ member => (nomatch member), fun _ failed => (nomatch failed)⟩
  | cons t rest ih =>
      have reached : Follows scopes.current t (rest.headD t) (.mode m) _ := step_follows m
      rw [evaluate]
      generalize step scopes.current t (rest.headD t) m = stepped at reached
      obtain ⟨events, ⟨m', ok, mode⟩ | ⟨failure, c, events', error, held, stopped⟩⟩ :=
        reached.all inherited hscopes.current h
      · have replayed := hscopes.replay events
        rw [Scopes.replay_effects] at replayed
        obtain ⟨later, fails⟩ := ih replayed mode
        simp only [ok]
        constructor
        · rw [Outcome.after, effects_append]
          exact List.forall_mem_append.mpr ⟨events, later⟩
        · intro failure failed
          obtain ⟨env, c, events, t', member, found⟩ := fails failure failed
          exact ⟨env, c, events, t', List.mem_cons_of_mem t member, found⟩
      · simp only [error]
        refine ⟨events, fun failure' failed => ?_⟩
        cases failed
        exact ⟨_, c, events', t, List.mem_cons_self, _, hscopes.current, held, stopped⟩

end PolyCalc
