import PolyCalc.Proofs.Bindings
import PolyCalc.Proofs.OnDemand

/-!
Lambda bodies under way.

What is known inside of a body comes from three things: the captured names, the
assignments that were made in it so far, and the environment around it. The journal
tells which bodies are under way and what was assigned in them (`Body.afterAll`), and
their environments are just that (`Body.environments`), whatever the events are. The
pending work has a `Lambda` for each of the bodies, and its variable is a name that has
no value where it is used (`Turns.used`).

Main statement: at every place of a text the three agree (`Parsing.After.stands`), so a
lambda has no other variable than a name that it captures, that a lambda around it
captures, or that had no value before the program began.
-/

namespace PolyCalc

theorem Env.isUnbound_eq_true {env : Env} {name : String} :
    env.isUnbound name = true ↔ env.get name = .unbound := by
  unfold isUnbound
  cases env.get name <;> simp

/-- Captured names have no value, and the others keep theirs. -/
theorem Env.get_captures (env : Env) (captures : List String) (name : String) :
    (captures.foldl Env.declare env).get name =
      if name ∈ captures then .unbound else env.get name := by
  induction captures generalizing env with
  | nil => rfl
  | cons captured captures ih =>
      rw [List.foldl_cons, ih, get_declare]
      by_cases later : name ∈ captures
      · simp [later]
      · by_cases same : name = captured
        · simp [same]
        · simp [later, same]

/-! ### Bodies -/

/-- A body under way: its captured names, and the assignments made in it, the latest
first. -/
structure Body where
  captures : List String
  assignments : List (String × Value Float)

namespace Body

/-- What the body makes of a name that it captures. -/
def binding (b : Body) (name : String) : Binding :=
  (b.assignments.lookup name).elim .unbound .bound

/-- The environment of the body inside of another environment. -/
def env (outer : Env) (b : Body) : Env :=
  b.assignments.foldr (fun a env => env.define a.1 a.2) (b.captures.foldl Env.declare outer)

/-- The environments of bodies inside of each other, the innermost first. -/
def environments (globals : Env) : List Body → List Env
  | [] => []
  | b :: outer =>
      b.env ((environments globals outer).headD globals) :: environments globals outer

/-- An assignment in the innermost body. -/
def assign (name : String) (v : Value Float) : List Body → List Body
  | [] => []
  | b :: outer => { b with assignments := (name, v) :: b.assignments } :: outer

/-- The bodies under way after an event. -/
def after (bodies : List Body) : Event → List Body
  | .declared name v | .assigned name v => assign name v bodies
  | .entered captures => ⟨captures, []⟩ :: bodies
  | .built .. => bodies.tail
  | .token _ | .statement _ | .called .. | .printed _ => bodies

/-- The bodies under way after some events. -/
def afterAll (bodies : List Body) (events : List Event) : List Body := events.foldl after bodies

theorem afterAll_append (bodies : List Body) (xs ys : List Event) :
    afterAll bodies (xs ++ ys) = afterAll (afterAll bodies xs) ys :=
  List.foldl_append

/-- Sights of tokens leave the bodies alone. -/
theorem afterAll_effects (bodies : List Body) (events : List Event) :
    afterAll bodies (effects events) = afterAll bodies events := by
  induction events generalizing bodies with
  | nil => rfl
  | cons e events ih => cases e <;> exact ih _

/-- The latest assignment counts. Without one the name is captured, or is what it is
around the body. -/
theorem get_env (outer : Env) (b : Body) (name : String) :
    (b.env outer).get name =
      (b.assignments.lookup name).elim
        (if name ∈ b.captures then .unbound else outer.get name) .bound := by
  obtain ⟨captures, assignments⟩ := b
  induction assignments with
  | nil => exact Env.get_captures outer captures name
  | cons a assignments ih =>
      have step : (Body.env outer ⟨captures, a :: assignments⟩).get name =
          if name = a.1 then .bound a.2 else (Body.env outer ⟨captures, assignments⟩).get name :=
        Env.get_define ..
      rw [step, List.lookup_cons]
      by_cases same : name = a.1
      · simp [same]
      · have differ : (name == a.1) = false := beq_eq_false_iff_ne.mpr same
        rw [if_neg same, differ]
        exact ih

theorem get_env_of_mem {b : Body} {name : String} (captured : name ∈ b.captures) (outer : Env) :
    (b.env outer).get name = b.binding name := by
  rw [get_env, if_pos captured]
  rfl

/-- A name without a value is captured by one of the bodies, or has none outside of
them. -/
theorem unbound_captured {globals : Env} {bodies : List Body} {name : String}
    (unbound : ((environments globals bodies).headD globals).get name = .unbound) :
    globals.get name = .unbound ∨ name ∈ bodies.flatMap captures := by
  induction bodies with
  | nil => exact .inl unbound
  | cons b outer ih =>
      have inside : (b.env ((environments globals outer).headD globals)).get name = .unbound :=
        unbound
      rw [get_env] at inside
      rw [List.flatMap_cons, List.mem_append]
      cases assigned : b.assignments.lookup name with
      | some v =>
          rw [assigned] at inside
          cases inside
      | none =>
          rw [assigned] at inside
          by_cases captured : name ∈ b.captures
          · exact .inr (.inl captured)
          · rw [Option.elim_none, if_neg captured] at inside
            rcases ih inside with outside | captured
            · exact .inl outside
            · exact .inr (.inr captured)

end Body

theorem Body.captures_afterAll {events : List Event} (plain : ∀ e ∈ events, e.isBorder = false)
    (bodies : List Body) : (afterAll bodies events).map captures = bodies.map captures := by
  induction events generalizing bodies with
  | nil => rfl
  | cons e events ih =>
      obtain ⟨first, rest⟩ := List.forall_mem_cons.mp plain
      refine (ih rest (after bodies e)).trans ?_
      cases e with
      | declared | assigned => cases bodies <;> rfl
      | entered | built => cases first
      | token | statement | called | printed => rfl

/-! ### Environments of bodies -/

namespace Scopes

/-- Inside of bodies, an event changes the innermost environment only. -/
theorem after_locals {s : Scopes} {bodies : List Body}
    (h : s.locals = Body.environments s.globals bodies) (e : Event) :
    (s.after e).locals = Body.environments (s.after e).globals (Body.after bodies e) := by
  obtain ⟨globals, locals⟩ := s
  obtain rfl : locals = Body.environments globals bodies := h
  cases e with
  | declared name v | assigned name v =>
      cases bodies with
      | nil => rfl
      | cons b outer => rfl
  | entered captures => rfl
  | built captures line p =>
      cases bodies with
      | nil => rfl
      | cons b outer => rfl
  | token | statement | called | printed => rfl

theorem replay_locals {s : Scopes} {bodies : List Body}
    (h : s.locals = Body.environments s.globals bodies) (events : List Event) :
    (s.replay events).locals =
      Body.environments (s.replay events).globals (Body.afterAll bodies events) := by
  induction events generalizing s bodies with
  | nil => exact h
  | cons e events ih => exact ih (after_locals h e)

/-- No name of the program loses its value. -/
theorem replay_unbound {s : Scopes} {events : List Event} {name : String}
    (unbound : (s.replay events).globals.get name = .unbound) :
    s.globals.get name = .unbound := by
  rw [replay_globals] at unbound
  rcases s.globals.get_defineAll (outerBindings s.locals.length events) name with
    same | ⟨v, bound⟩
  · exact same.symm.trans unbound
  · rw [bound] at unbound
    cases unbound

end Scopes

/-! ### Lambdas under way -/

theorem Lambda.add_fixed {l l' : Lambda} {c : Float} {power : Nat} (ok : l.add c power = .ok l') :
    l'.captures = l.captures ∧ l'.unknown = l.unknown := by
  obtain ⟨cs, -, ok⟩ := bind_ok ok
  cases ok
  exact ⟨rfl, rfl⟩

/-- After a name has been used as the variable, it is the variable. -/
theorem Lambda.use_fixed {l l' : Lambda} {name : String} (ok : l.use name = .ok l') :
    l'.captures = l.captures ∧ l'.unknown = some name := by
  unfold use at ok
  split at ok
  · cases ok
    exact ⟨rfl, rfl⟩
  · rename_i expected known
    split at ok
    · rename_i same
      cases ok
      exact ⟨rfl, known.trans (congrArg some same)⟩
    · cases ok

/-! ### What agrees -/

/-- Every variable is captured by its lambda or by one around it, unless it had no value
before the program began. -/
def VariablesCaptured (start : Env) (ls : List Lambda) : Prop :=
  ∀ l outer, l :: outer <:+ ls → ∀ name, l.unknown = some name →
    start.get name = .unbound ∨ name ∈ (l :: outer).flatMap Lambda.captures

theorem variablesCaptured_cons {start : Env} {l : Lambda} {outer : List Lambda} :
    VariablesCaptured start (l :: outer) ↔
      (∀ name, l.unknown = some name →
        start.get name = .unbound ∨ name ∈ (l :: outer).flatMap Lambda.captures) ∧
      VariablesCaptured start outer := by
  constructor
  · intro h
    refine ⟨h l outer List.suffix_rfl, fun l' outer' inside => ?_⟩
    exact h l' outer' (inside.trans (List.suffix_cons l outer))
  · rintro ⟨first, rest⟩ l' outer' inside
    rcases List.suffix_cons_iff.mp inside with same | inside
    · cases same
      exact first
    · exact rest l' outer' inside

/-- The scopes are those of the bodies under way, and there is a lambda for each of
them. -/
structure Stands (start : Env) (scopes : Scopes) (bodies : List Body) (ls : List Lambda) :
    Prop where
  globals : ∀ name, scopes.globals.get name = .unbound → start.get name = .unbound
  locals : scopes.locals = Body.environments scopes.globals bodies
  captures : ls.map Lambda.captures = bodies.map Body.captures
  captured : VariablesCaptured start ls

section

variable {start : Env} {scopes : Scopes} {bodies : List Body} {ls : List Lambda}

/-- A name without a value is captured by a lambda under way. -/
theorem Stands.unbound (h : Stands start scopes bodies ls) {name : String}
    (unbound : scopes.current.get name = .unbound) :
    start.get name = .unbound ∨ name ∈ ls.flatMap Lambda.captures := by
  rw [Scopes.current, h.locals] at unbound
  rw [List.flatMap_def, h.captures, ← List.flatMap_def]
  exact (Body.unbound_captured unbound).imp_left (h.globals name)

/-- The innermost lambda goes on with the names that it captures. -/
theorem Stands.goOn {l l' : Lambda} {outer : List Lambda}
    (h : Stands start scopes bodies (l :: outer)) (same : l'.captures = l.captures)
    (known : ∀ name, l'.unknown = some name →
      start.get name = .unbound ∨ name ∈ (l :: outer).flatMap Lambda.captures) :
    Stands start scopes bodies (l' :: outer) := by
  refine ⟨h.globals, h.locals, ?_, variablesCaptured_cons.mpr ⟨fun name isName => ?_, ?_⟩⟩
  · rw [List.map_cons, same]
    exact h.captures
  · rw [List.flatMap_cons, same]
    exact known name isName
  · exact (variablesCaptured_cons.mp h.captured).2

variable {env : Env} {t next : Located} {c : Control} {events : List Event}

theorem Turns.stands (turns : Turns env t next c events ls)
    (here : ∀ m, c = .mode m → env = scopes.current)
    (h : Stands start scopes bodies c.lambdas) :
    Stands start (scopes.replay events) (Body.afterAll bodies events) ls := by
  have globals : ∀ name, (scopes.replay events).globals.get name = .unbound →
      start.get name = .unbound := fun name unbound =>
    h.globals name (Scopes.replay_unbound unbound)
  have locals := Scopes.replay_locals h.locals events
  cases turns with
  | same plain =>
      exact ⟨globals, locals, h.captures.trans (Body.captures_afterAll plain bodies).symm,
        h.captured⟩
  | added top _ added =>
      obtain ⟨captures, unknown⟩ := Lambda.add_fixed added
      rw [Control.lambdas, top] at h
      refine h.goOn captures fun name isName => ?_
      exact (variablesCaptured_cons.mp h.captured).1 name (unknown.symm.trans isName)
  | @used m l l' outer name top found used =>
      obtain ⟨captures, unknown⟩ := Lambda.use_fixed used
      rw [Control.lambdas, top] at h
      refine h.goOn captures fun other isName => ?_
      obtain rfl : name = other := Option.some.inj (unknown.symm.trans isName)
      exact h.unbound (here m rfl ▸ Env.isUnbound_eq_true.mp found.2.2)
  | @entered m names line =>
      refine ⟨globals, locals, congrArg (names :: ·) h.captures, ?_⟩
      refine variablesCaptured_cons.mpr ⟨fun name unused => ?_, h.captured⟩
      cases unused
  | built top =>
      rw [Control.lambdas, top] at h
      refine ⟨globals, locals, ?_, (variablesCaptured_cons.mp h.captured).2⟩
      show ls.map _ = bodies.tail.map _
      rw [List.map_tail, ← h.captures]
      rfl

/-- A step keeps scopes, bodies and lambdas together. -/
theorem Reaches.stands {m : Mode} {result : Except Failure Mode}
    (reached : Reaches env t next c events result) (ok : result = .ok m)
    (here : ∀ m, c = .mode m → env = scopes.current)
    (h : Stands start scopes bodies c.lambdas) :
    Stands start (scopes.replay events) (Body.afterAll bodies events) m.lambdas := by
  induction reached generalizing scopes bodies with
  | settles settled _ ih =>
      rw [Scopes.replay_append, Body.afterAll_append]
      exact ih ok (settled.here here) (settled.turns.stands here h)
  | takes taken =>
      cases ok
      exact taken.turns.stands here h
  | stops => cases ok

end

/-! ### Runs -/

namespace Parsing

/-- The evaluation of the text comes to a state with the given events behind it. -/
inductive After (env : Env) (source : String) : List Event → Parsing → Prop where
  | start : After env source [] (start env source)
  | step {events p mode} : After env source events p → p.scanner.token ≠ .endOfFile →
      p.stepped.result = .ok mode → After env source (events ++ p.stepped.events) (p.next mode)

variable {env : Env} {source : String} {events : List Event} {p : Parsing}

theorem After.reached (after : After env source events p) : Reached env source p := by
  induction after with
  | start => exact .start
  | step _ more ok ih => exact .step ih more ok

theorem Reached.after (reached : Reached env source p) : ∃ events, After env source events p := by
  induction reached with
  | start => exact ⟨[], .start⟩
  | step _ more ok ih =>
      obtain ⟨events, after⟩ := ih
      exact ⟨_, .step after more ok⟩

/-- The state some tokens further on and the events up to it, unless the evaluation ends
before. -/
def ahead? (p : Parsing) : Nat → Option (List Event × Parsing)
  | 0 => some ([], p)
  | n + 1 =>
      if p.scanner.token = .endOfFile then none
      else
        match p.stepped.result with
        | .ok mode =>
            ((p.next mode).ahead? n).map fun later => (p.stepped.events ++ later.1, later.2)
        | .error _ => none

theorem After.ahead {q : Parsing} {more : List Event} {n : Nat} (after : After env source events p)
    (found : p.ahead? n = some (more, q)) : After env source (events ++ more) q := by
  induction n generalizing events p more with
  | zero =>
      cases found
      rwa [List.append_nil]
  | succ n ih =>
      rw [ahead?] at found
      split at found
      · cases found
      rename_i goesOn
      split at found
      · rename_i mode ok
        obtain ⟨⟨rest, q'⟩, later, same⟩ := Option.map_eq_some_iff.mp found
        cases same
        rw [← List.append_assoc]
        exact ih (.step after goesOn ok) later
      · cases found

theorem exists_after {n : Nat} {check : List Event × Parsing → Bool}
    (checked : ((start env source).ahead? n).any check = true) :
    ∃ events p, After env source events p ∧ check (events, p) = true := by
  obtain ⟨⟨events, p⟩, found, holds⟩ := (Option.any_eq_true ..).mp checked
  exact ⟨[] ++ events, p, After.start.ahead found, holds⟩

/-- The program goes on from the state as the evaluation does, after the events. -/
theorem After.program (after : After env source events p) :
    program env source =
      p.run.after (.token (Parsing.start env source).scanner.located :: events) := by
  rw [← onDemand_eq, onDemand]
  induction after with
  | start => rfl
  | @step events p mode _ more ok ih =>
      have goesOn : p.run = (p.next mode).run.after p.stepped.events := by
        rw [run]
        simp only [ok, dif_neg more]
      rw [ih, goesOn, Outcome.after, Outcome.after, Outcome.after, ← List.append_assoc]
      rfl

theorem Reached.stepped_eq (reached : Reached env source p) :
    p.stepped =
      PolyCalc.step p.scopes.current p.scanner.located p.scanner.read.located p.mode := by
  obtain ⟨s, scanner⟩ := reached.scanner
  obtain ⟨scopes, m, scanned⟩ := p
  obtain rfl : scanned = s.read := scanner
  exact Parsing.stepped_eq scopes m s

/-- The scopes, the bodies of the journal and the lambdas of the pending work agree at every
place of a text. -/
theorem After.stands (after : After env source events p) :
    Stands env p.scopes (Body.afterAll [] events) p.mode.lambdas := by
  induction after with
  | start =>
      refine ⟨fun _ unbound => unbound, rfl, rfl, ?_⟩
      intro l outer inside
      cases List.suffix_nil.mp inside
  | @step events p mode before _ ok ih =>
      rw [before.reached.stepped_eq] at ok
      have here : ∀ m, Control.mode p.mode = .mode m → p.scopes.current = p.scopes.current :=
        fun _ _ => rfl
      have after := (step_follows p.mode).stands ok here ih
      rw [← before.reached.stepped_eq, Scopes.replay_effects, Body.afterAll_effects] at after
      rw [Body.afterAll_append]
      exact after

end Parsing

end PolyCalc
