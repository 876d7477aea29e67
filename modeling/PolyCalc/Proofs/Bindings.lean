import PolyCalc.Proofs.Nesting

/-!
The bindings that a run makes.

A program changes its environment only by binding names to values, and only
outside of lambda bodies: the environment it leaves is the one it started in
with these bindings added (`program_env`). Which names they bind can be read off
the tokens. The names that pending work is going to bind have been read in front
of a `:=`, and outside of bodies a name is reassigned only if it is there
already (`Mode.Targeted`, kept by every transition). So every event is `Lawful`
in the scopes in which it happens (`evaluate_lawful`), and lawful events leave
all other names alone.
-/

namespace PolyCalc

/-! ### Bindings outside of bodies -/

/-- Binds names to values, one after the other. -/
def Env.defineAll (env : Env) (bindings : List (String × Value Float)) : Env :=
  bindings.foldl (fun env b => env.define b.1 b.2) env

/-- The bindings that events make outside of all lambda bodies. The events begin
inside of `depth` bodies. -/
def outerBindings : Nat → List Event → List (String × Value Float)
  | _, [] => []
  | depth, .entered _ :: events => outerBindings (depth + 1) events
  | depth, .built .. :: events => outerBindings (depth - 1) events
  | depth, .declared name v :: events | depth, .assigned name v :: events =>
      if depth = 0 then (name, v) :: outerBindings depth events else outerBindings depth events
  | depth, .token _ :: events | depth, .statement _ :: events | depth, .called .. :: events
  | depth, .printed _ :: events => outerBindings depth events

namespace Scopes

/-- Inside of a body, the environment of the program stays as it is. -/
theorem define_globals (s : Scopes) (name : String) (v : Value Float) :
    (s.define name v).globals =
        (if s.locals.length = 0 then s.globals.define name v else s.globals) ∧
      (s.define name v).locals.length = s.locals.length := by
  obtain ⟨globals, locals⟩ := s
  cases locals with
  | nil => exact ⟨rfl, rfl⟩
  | cons env outer => exact ⟨rfl, rfl⟩

/-- Of all events, only bindings outside of bodies reach the environment of the
program. -/
theorem replay_globals (s : Scopes) (events : List Event) :
    (s.replay events).globals = s.globals.defineAll (outerBindings s.locals.length events) := by
  induction events generalizing s with
  | nil => rfl
  | cons e events ih =>
      rw [replay_cons, ih]
      cases e with
      | declared name v | assigned name v =>
          obtain ⟨globals, depth⟩ := s.define_globals name v
          simp only [after, globals, depth, outerBindings]
          split <;> rfl
      | entered captures => rfl
      | built captures line p => simp [after, leave, outerBindings]
      | token | statement | called | printed => rfl

end Scopes

namespace Env

/-- Bindings keep bound names bound and give no name without a value. -/
theorem get_defineAll (env : Env) (bindings : List (String × Value Float)) (name : String) :
    (env.defineAll bindings).get name = env.get name ∨
      ∃ v, (env.defineAll bindings).get name = .bound v := by
  induction bindings generalizing env with
  | nil => exact .inl rfl
  | cons b bindings ih =>
      rcases ih (env.define b.1 b.2) with same | bound
      · by_cases defined : name = b.1
        · exact .inr ⟨b.2, same.trans (by simp [defined])⟩
        · exact .inl (same.trans (by simp [defined]))
      · exact .inr bound

theorem contains_eq_true {env : Env} {name : String} :
    env.contains name = true ↔ env.get name ≠ .absent := by
  unfold contains
  cases env.get name <;> simp

/-- A binding adds its name and no other. -/
theorem contains_define {env : Env} {name other : String} {v : Value Float} :
    (env.define other v).contains name = true ↔ name = other ∨ env.contains name = true := by
  rw [contains_eq_true, contains_eq_true, get_define]
  split
  · simp [*]
  · simp [*]

end Env

/-- A name that is there stays there. -/
theorem Scopes.contains_mono {s : Scopes} {name : String} (known : s.globals.contains name = true)
    (events : List Event) : (s.replay events).globals.contains name = true := by
  rw [Env.contains_eq_true] at known ⊢
  rw [replay_globals]
  rcases s.globals.get_defineAll (outerBindings s.locals.length events) name
    with same | ⟨v, bound⟩
  · rwa [same]
  · simp [bound]

/-- The environment of an outcome is what its journal leaves. -/
theorem evaluate_env (scopes : Scopes) (m : Mode) (tokens : List Located) :
    (evaluate scopes m tokens).env =
      (scopes.replay (evaluate scopes m tokens).journal).globals := by
  induction tokens generalizing scopes m with
  | nil => rfl
  | cons t rest ih =>
      rw [evaluate]
      split
      · rw [Outcome.after_env, Outcome.after, Scopes.replay_append]
        exact ih _ _
      · rfl

/-- A program leaves its environment with the bindings that it makes outside of
lambda bodies, and with nothing else. -/
theorem program_env (env : Env) (source : String) :
    (program env source).env = env.defineAll (outerBindings 0 (program env source).journal) := by
  have left := evaluate_env ⟨env, []⟩ .statement (scan source)
  rw [← Scopes.replay_effects, ← program_effects, Scopes.replay_effects,
    Scopes.replay_globals] at left
  exact left

/-! ### Lawful events -/

/-- What binds a name stands in the tokens that have been read. A declaration is
outside of all bodies, and there only names that are there are reassigned. -/
def Event.Lawful (read : List Token) (s : Scopes) : Event → Prop
  | .declared name _ => [.var, .identifier name, .assign] <:+: read ∧ s.locals = []
  | .assigned name _ =>
      [.identifier name, .assign] <:+: read ∧
        (s.locals = [] → s.globals.contains name = true)
  | _ => True

namespace Event.Lawful

variable {read : List Token} {s : Scopes} {e : Event} {name : String}

/-- A name that is not there comes with its declaration. -/
theorem contains_after (lawful : e.Lawful read s) (missing : s.globals.contains name = false) :
    (s.after e).globals.contains name = true ↔ ∃ v, e = .declared name v := by
  obtain ⟨globals, locals⟩ := s
  cases e with
  | declared target w =>
      obtain rfl : locals = [] := lawful.2
      show (globals.define target w).contains name = true ↔ _
      rw [Env.contains_define, missing]
      simp [eq_comm]
  | assigned target w =>
      cases locals with
      | nil =>
          have known : globals.contains target = true := lawful.2 rfl
          have other : name ≠ target := by
            rintro rfl
            exact absurd known (Bool.eq_false_iff.mp missing)
          show (globals.define target w).contains name = true ↔ _
          rw [Env.contains_define, missing]
          simp [other]
      | cons env outer =>
          show globals.contains name = true ↔ _
          simp [missing]
  | token | statement | called | printed | entered | built =>
      show globals.contains name = true ↔ _
      simp [missing]

/-- A name that has not been read in front of a `:=` keeps its binding. -/
theorem get_after (lawful : e.Lawful read s)
    (unwritten : ¬ [.identifier name, .assign] <:+: read) :
    (s.after e).globals.get name = s.globals.get name := by
  have defined {target : String} {w : Value Float}
      (written : [.identifier target, .assign] <:+: read) :
      (s.define target w).globals.get name = s.globals.get name := by
    have other : name ≠ target := by
      rintro rfl
      exact unwritten written
    rw [(s.define_globals target w).1]
    split
    · rw [Env.get_define, if_neg other]
    · rfl
  cases e with
  | declared target w =>
      have inside : [.identifier target, .assign] <:+: [Token.var, .identifier target, .assign] :=
        (List.suffix_cons _ _).isInfix
      exact defined (inside.trans lawful.1)
  | assigned target w => exact defined lawful.1
  | token | statement | called | printed | entered | built => rfl

end Event.Lawful

/-- Each event is lawful in the scopes in which it happens. -/
def Lawful (read : List Token) : Scopes → List Event → Prop
  | _, [] => True
  | s, e :: events => e.Lawful read s ∧ Lawful read (s.after e) events

namespace Lawful

variable {read : List Token} {s : Scopes} {events : List Event} {name : String}

theorem append {more : List Event} (first : Lawful read s events)
    (rest : Lawful read (s.replay events) more) : Lawful read s (events ++ more) := by
  induction events generalizing s with
  | nil => exact rest
  | cons e events ih => exact ⟨first.1, ih first.2 rest⟩

theorem mono {read' : List Token} (longer : read <:+: read') (lawful : Lawful read s events) :
    Lawful read' s events := by
  induction events generalizing s with
  | nil => trivial
  | cons e events ih =>
      refine ⟨?_, ih lawful.2⟩
      cases e with
      | declared | assigned => exact ⟨lawful.1.1.trans longer, lawful.1.2⟩
      | _ => trivial

/-- Printing binds nothing. -/
theorem printed (values : List (Value Float)) : Lawful read s (values.map .printed) := by
  induction values with
  | nil => trivial
  | cons v values ih => exact ⟨trivial, ih⟩

/-- A name that was not there is there afterwards if and only if it was declared. -/
theorem contains_replay (lawful : Lawful read s events)
    (missing : s.globals.contains name = false) :
    (s.replay events).globals.contains name = true ↔ ∃ v, .declared name v ∈ events := by
  induction events generalizing s with
  | nil => simp [missing]
  | cons e events ih =>
      obtain ⟨first, rest⟩ := lawful
      have added := first.contains_after missing
      rw [Scopes.replay_cons]
      by_cases now : ∃ v, e = .declared name v
      · obtain ⟨v, rfl⟩ := now
        have there := Scopes.contains_mono (added.mpr ⟨v, rfl⟩) events
        exact ⟨fun _ => ⟨v, List.mem_cons_self⟩, fun _ => there⟩
      · have still : (s.after e).globals.contains name = false :=
          Bool.eq_false_iff.mpr fun there => now (added.mp there)
        rw [ih rest still]
        refine exists_congr fun v => ?_
        have other : .declared name v ≠ e := fun same => now ⟨v, same.symm⟩
        simp [other]

/-- What is declared has been read between `var` and `:=`. -/
theorem declared_read (lawful : Lawful read s events) {v : Value Float}
    (member : .declared name v ∈ events) : [.var, .identifier name, .assign] <:+: read := by
  induction events generalizing s with
  | nil => cases member
  | cons e events ih =>
      obtain ⟨first, rest⟩ := lawful
      rcases List.mem_cons.mp member with rfl | later
      · exact first.1
      · exact ih rest later

/-- A name that has not been read in front of a `:=` keeps its binding. -/
theorem get_replay (lawful : Lawful read s events)
    (unwritten : ¬ [.identifier name, .assign] <:+: read) :
    (s.replay events).globals.get name = s.globals.get name := by
  induction events generalizing s with
  | nil => rfl
  | cons e events ih =>
      obtain ⟨first, rest⟩ := lawful
      rw [Scopes.replay_cons, ih rest, first.get_after unwritten]

end Lawful

/-! ### Names that are going to be bound -/

/-- The name has been read in front of a `:=`. Outside of bodies it is there
already. -/
def Reassigns (read : List Token) (globals : Env) (depth : Nat) (name : String) : Prop :=
  [.identifier name, .assign] <:+: read ∧ (depth = 0 → globals.contains name = true)

/-- The names that a value is going to be bound to have been read in front of a
`:=`, and a name that is going to be declared after `var` as well. -/
def Pending.Targeted (read : List Token) (globals : Env) : {s : Stage} → Pending s → Prop
  | _, .discard => True
  | _, .declare name => [.var, .identifier name, .assign] <:+: read
  | _, .into targets k =>
      (∀ name ∈ targets, Reassigns read globals k.depth name) ∧ k.Targeted read globals
  | _, .group k | _, .argument _ k | _, .whole k | _, .exponent _ _ _ k | _, .firstAddend k
  | _, .addTo _ _ _ k | _, .firstFactor k | _, .multiplyInto _ _ _ k | _, .coefficient _ _ _ _ k =>
      k.Targeted read globals

/-- At the `:=` of a statement or an expression, its name has just been read. -/
def Mode.Targeted (read : List Token) (globals : Env) : Mode → Prop
  | .statement => True
  | .declareName => [.var] <:+ read
  | .declareSign name => [.var, .identifier name] <:+ read
  | .assignSign name k =>
      ([.identifier name] <:+ read ∧ (k.depth = 0 → globals.contains name = true)) ∧
        k.Targeted read globals
  | .expression k | .firstCapture _ k | .capture _ _ k | .afterCapture _ _ k | .arrow _ _ k
  | .body _ k | .component _ _ k | .factor _ _ _ _ k | .afterVariable _ _ k
  | .openExponent _ _ _ k | .afterComponent _ k => k.Targeted read globals
  | .operand k | .negated k | .value _ k | .callee _ k | .firstGeneric _ k | .generic _ _ k
  | .negatedGeneric _ _ k | .afterGeneric _ _ k | .openArguments _ k | .firstArgument _ k =>
      k.Targeted read globals

def Control.Targeted (read : List Token) (globals : Env) : Control → Prop
  | .mode m => m.Targeted read globals
  | .deliver _ k => k.Targeted read globals

/-- More tokens and more names do no harm. -/
theorem Pending.Targeted.mono {read read' : List Token} {globals globals' : Env}
    (longer : read <:+: read')
    (larger : ∀ name, globals.contains name = true → globals'.contains name = true)
    {stage : Stage} {k : Pending stage} (h : k.Targeted read globals) :
    k.Targeted read' globals' := by
  induction k with
  | discard => trivial
  | declare name => exact List.IsInfix.trans h longer
  | into targets k ih =>
      obtain ⟨names, rest⟩ := h
      refine ⟨?_, ih rest⟩
      intro name member
      obtain ⟨written, known⟩ := names name member
      exact ⟨written.trans longer, fun outside => larger name (known outside)⟩
  | group | argument | whole | exponent | firstAddend | addTo | firstFactor | multiplyInto
  | coefficient =>
      rename_i ih
      exact ih h

/-- A new expression is not assigned to anything yet. -/
theorem Pending.Targeted.expression {read : List Token} {globals : Env} {k : Pending .goal}
    (h : k.Targeted read globals) : (Pending.expression k).Targeted read globals :=
  ⟨fun _ member => (nomatch member), h⟩

/-! ### Transitions -/

section

variable {env : Env} {t next : Located} {c c' : Control} {events : List Event}
  {scopes : Scopes} {m : Mode} {read : List Token}

theorem Nested.outside (nested : Nested scopes 0) : scopes.locals = [] :=
  List.eq_nil_of_length_eq_zero nested

/-- Names are bound where the value of an expression is delivered. -/
theorem Settles.lawful (settled : Settles env t next c events c')
    (nested : Nested scopes c.depth) (h : c.Targeted read scopes.globals) :
    Lawful read scopes events ∧ c'.Targeted read (scopes.replay events).globals := by
  cases settled with
  | statement => exact ⟨⟨trivial, trivial⟩, Pending.Targeted.expression trivial⟩
  | argument => exact ⟨trivial, Pending.Targeted.expression h⟩
  | @assigned v name targets k =>
      obtain ⟨names, rest⟩ := h
      obtain ⟨written, known⟩ := names name List.mem_cons_self
      constructor
      · refine ⟨⟨written, fun outside => known ?_⟩, trivial⟩
        exact nested.symm.trans (congrArg List.length outside)
      · have later : (Pending.into targets k).Targeted read scopes.globals :=
          ⟨fun other member => names other (List.mem_cons_of_mem _ member), rest⟩
        exact later.mono List.infix_rfl fun _ there => Scopes.contains_mono there _
  | declared => exact ⟨⟨⟨h.2, nested.outside⟩, trivial⟩, Pending.Targeted.expression trivial⟩
  | built => exact ⟨⟨trivial, trivial⟩, h⟩
  | _ => exact ⟨trivial, h⟩

/-- Transitions between modes leave the scopes alone. -/
theorem Settles.here (settled : Settles env t next c events c')
    (here : ∀ m, c = .mode m → env = scopes.current) :
    ∀ m, c' = .mode m → env = (scopes.replay events).current := by
  rintro m rfl
  cases settled <;> exact here _ rfl

theorem Lawful.called (name : String) (count : Nat) (values : List (Value Float)) :
    Lawful read scopes (.called name count :: values.map .printed) :=
  ⟨trivial, .printed values⟩

/-- Names that are going to be bound are read one token after the other. -/
theorem Takes.lawful (taken : Takes env t next c events m) (nested : Nested scopes c.depth)
    (here : ∀ m, c = .mode m → env = scopes.current) (h : c.Targeted read scopes.globals) :
    Lawful read scopes events ∧
      m.Targeted (read ++ [t.token]) (scopes.replay events).globals := by
  have longer : read <:+: read ++ [t.token] := (List.prefix_append _ _).isInfix
  have later {stage : Stage} {k : Pending stage} (h : k.Targeted read scopes.globals) :
      k.Targeted (read ++ [t.token]) scopes.globals := h.mono longer fun _ there => there
  have next {tokens : List Token} {token : Token} (last : tokens <:+ read)
      (found : t.token = token) : tokens ++ [token] <:+ read ++ [t.token] := by
    obtain ⟨before, rfl⟩ := last
    exact ⟨before, by rw [found, List.append_assoc]⟩
  cases taken with
  | finish | terminator => exact ⟨trivial, trivial⟩
  | var found => exact ⟨⟨trivial, trivial⟩, next List.nil_suffix found⟩
  | declareName found => exact ⟨trivial, next h found⟩
  | declareSign found => exact ⟨trivial, Pending.Targeted.expression (next h found).isInfix⟩
  | assignName found _ known =>
      obtain rfl := here _ rfl
      refine ⟨trivial, ⟨next List.nil_suffix found, fun outside => ?_⟩, later h⟩
      have globals : scopes.current = scopes.globals := by
        rw [Scopes.current, Nested.outside (outside ▸ nested)]
        rfl
      exact globals ▸ known
  | assignSign found =>
      obtain ⟨⟨last, known⟩, k⟩ := h
      obtain ⟨names, rest⟩ := later k
      exact ⟨trivial, List.forall_mem_cons.mpr ⟨⟨(next last found).isInfix, known⟩, names⟩, rest⟩
  | leftParen => exact ⟨trivial, Pending.Targeted.expression (later h)⟩
  | comma => exact ⟨trivial, Pending.Targeted.expression (later h.2)⟩
  | rightParen => exact ⟨trivial, later h.2⟩
  | noArguments => exact ⟨.called .., (Scopes.replay_printed scopes _).symm ▸ later h⟩
  | lastArgument => exact ⟨.called .., (Scopes.replay_printed scopes _).symm ▸ later h.2⟩
  | arrow => exact ⟨⟨trivial, trivial⟩, later h⟩
  | _ => exact ⟨trivial, later h⟩

/-- A failure binds nothing. -/
theorem Stops.lawful {failure : Failure} (stopped : Stops env t next c events failure) :
    Lawful read scopes events := by
  cases stopped with
  | noArguments | lastArgument => exact ⟨trivial, trivial⟩
  | _ => trivial

/-- The events of a step are lawful, and it keeps the invariant. -/
theorem Reaches.lawful {result : Except Failure Mode}
    (reached : Reaches env t next c events result) (nested : Nested scopes c.depth)
    (here : ∀ m, c = .mode m → env = scopes.current) (h : c.Targeted read scopes.globals) :
    Lawful read scopes events ∧ ∀ m, result = .ok m →
      m.Targeted (read ++ [t.token]) (scopes.replay events).globals := by
  induction reached generalizing scopes with
  | settles settled _ ih =>
      obtain ⟨first, targeted⟩ := settled.lawful nested h
      obtain ⟨rest, mode⟩ := ih (settled.nested nested) (settled.here here) targeted
      refine ⟨first.append rest, ?_⟩
      rw [Scopes.replay_append]
      exact mode
  | takes taken =>
      obtain ⟨events, mode⟩ := taken.lawful nested here h
      refine ⟨events, ?_⟩
      rintro m ⟨⟩
      exact mode
  | stops stopped =>
      refine ⟨stopped.lawful, ?_⟩
      rintro m ⟨⟩

end

/-! ### Runs -/

/-- All events of an evaluation are lawful, by induction on the tokens that are left. -/
theorem evaluate_lawful {scopes : Scopes} {m : Mode} {read : List Token} (tokens : List Located)
    (nested : Nested scopes m.depth) (h : m.Targeted read scopes.globals) :
    Lawful (read ++ tokens.map Located.token) scopes
      (effects (evaluate scopes m tokens).journal) := by
  induction tokens generalizing scopes m read with
  | nil => trivial
  | cons t rest ih =>
      have reached : Follows scopes.current t (rest.headD t) (.mode m) _ := step_follows m
      have here : ∀ m', Control.mode m = .mode m' → scopes.current = scopes.current :=
        fun _ _ => rfl
      obtain ⟨first, mode⟩ := reached.lawful nested here h
      have longer : read <:+: read ++ (t :: rest).map Located.token :=
        (List.prefix_append _ _).isInfix
      rw [evaluate]
      split
      · rename_i m' ok
        rw [Outcome.after, effects_append, ← Scopes.replay_effects]
        refine (first.mono longer).append ?_
        have later := ih (step_nested nested ok) (mode m' ok)
        rwa [List.append_assoc] at later
      · exact first.mono longer

section

variable (env : Env) (source : String)

/-- The environment of a program is what its effects leave. -/
theorem program_replay :
    (program env source).env =
      (Scopes.replay ⟨env, []⟩ (effects (program env source).journal)).globals := by
  rw [Scopes.replay_effects, Scopes.replay_globals]
  exact program_env env source

/-- All events of a program are lawful. -/
theorem program_lawful :
    Lawful ((scan source).map Located.token) ⟨env, []⟩ (effects (program env source).journal) := by
  have outside : Nested ⟨env, []⟩ Mode.statement.depth := rfl
  have started : Mode.statement.Targeted [] env := trivial
  rw [program_effects]
  exact evaluate_lawful (scan source) outside started

end

end PolyCalc
