import PolyCalc.Proofs.Effects
import PolyCalc.Proofs.Operational

/-!
Renamed and moved programs.

A `Relabel` gives the names of a program other names, no two the same, and puts
its tokens at other places. It acts on all that holds names or places: tokens,
faults, pending work, modes, events and environments. Values hold neither.

The evaluator does not look inside names or at places, so it does not tell a
program from a relabelled one: steps agree (`step_agrees`) and so do evaluations
(`evaluate_relabel`). A step agrees also if the token after it is another one,
unless it is at a name.
-/

namespace PolyCalc

/-- Other names, no two names the same, and other places. -/
structure Relabel where
  name : String → String
  name_injective : ∀ {a b}, name a = name b → a = b
  offset : Nat → Nat
  line : Nat → Nat
  column : Nat → Nat

namespace Relabel

variable (r : Relabel)

theorem name_eq_iff {a b : String} : r.name a = r.name b ↔ a = b :=
  ⟨r.name_injective, congrArg r.name⟩

/-! ### The action -/

def token : Token → Token
  | .identifier name => .identifier (r.name name)
  | other => other

def position (p : Position) : Position := ⟨r.offset p.offset, r.line p.line, r.column p.column⟩

def located (t : Located) : Located := ⟨r.token t.token, r.position t.start⟩

/-- Only faults about the text of the program hold names or columns. -/
def fault : Fault → Fault
  | .unexpectedCharacter found column => .unexpectedCharacter found (r.column column)
  | .unexpectedToken found expected => .unexpectedToken (r.token found) expected
  | .undefinedName name => .undefinedName (r.name name)
  | .unboundName name => .unboundName (r.name name)
  | .redefinedName name => .redefinedName (r.name name)
  | .notCallable name => .notCallable (r.name name)
  | .notCaptured name => .notCaptured (r.name name)
  | .mixedVariables expected found => .mixedVariables (r.name expected) (r.name found)
  | other => other

def failure (f : Failure) : Failure := ⟨r.fault f.fault, r.line f.line⟩

def call (c : Call) : Call := { c with name := r.name c.name, line := r.line c.line }

def lambda (l : Lambda) : Lambda :=
  { l with
    captures := l.captures.map r.name
    line := r.line l.line
    unknown := l.unknown.map r.name }

/-- Lambdas and calls under way hold names, and pending operators the line of their
operator. -/
def pending : {s : Stage} → Pending s → Pending s
  | _, .discard => .discard
  | _, .declare name => .declare (r.name name)
  | _, .group k => .group (pending k)
  | _, .argument call k => .argument (r.call call) (pending k)
  | _, .into targets k => .into (targets.map r.name) (pending k)
  | _, .whole k => .whole (pending k)
  | _, .exponent l c line k => .exponent (r.lambda l) c (r.line line) (pending k)
  | _, .firstAddend k => .firstAddend (pending k)
  | _, .addTo op lhs line k => .addTo op lhs (r.line line) (pending k)
  | _, .firstFactor k => .firstFactor (pending k)
  | _, .multiplyInto op lhs line k => .multiplyInto op lhs (r.line line) (pending k)
  | _, .coefficient l sign sofar line k =>
      .coefficient (r.lambda l) sign sofar (r.line line) (pending k)

def mode : Mode → Mode
  | .statement => .statement
  | .declareName => .declareName
  | .declareSign name => .declareSign (r.name name)
  | .expression k => .expression (r.pending k)
  | .assignSign name k => .assignSign (r.name name) (r.pending k)
  | .operand k => .operand (r.pending k)
  | .negated k => .negated (r.pending k)
  | .value v k => .value v (r.pending k)
  | .callee call k => .callee (r.call call) (r.pending k)
  | .firstGeneric call k => .firstGeneric (r.call call) (r.pending k)
  | .generic call generics k => .generic (r.call call) generics (r.pending k)
  | .negatedGeneric call generics k => .negatedGeneric (r.call call) generics (r.pending k)
  | .afterGeneric call generics k => .afterGeneric (r.call call) generics (r.pending k)
  | .openArguments call k => .openArguments (r.call call) (r.pending k)
  | .firstArgument call k => .firstArgument (r.call call) (r.pending k)
  | .firstCapture line k => .firstCapture (r.line line) (r.pending k)
  | .capture line names k => .capture (r.line line) (names.map r.name) (r.pending k)
  | .afterCapture line names k => .afterCapture (r.line line) (names.map r.name) (r.pending k)
  | .arrow line names k => .arrow (r.line line) (names.map r.name) (r.pending k)
  | .body l k => .body (r.lambda l) (r.pending k)
  | .component l sign k => .component (r.lambda l) sign (r.pending k)
  | .factor l sign op c k => .factor (r.lambda l) sign op c (r.pending k)
  | .afterVariable l c k => .afterVariable (r.lambda l) c (r.pending k)
  | .openExponent l c line k => .openExponent (r.lambda l) c (r.line line) (r.pending k)
  | .afterComponent l k => .afterComponent (r.lambda l) (r.pending k)

def event : Event → Event
  | .token t => .token (r.located t)
  | .statement line => .statement (r.line line)
  | .declared name v => .declared (r.name name) v
  | .assigned name v => .assigned (r.name name) v
  | .called name count => .called (r.name name) count
  | .printed v => .printed v
  | .entered captures => .entered (captures.map r.name)
  | .built captures line p => .built (captures.map r.name) (r.line line) p

/-- The entries keep their values and their order. -/
def env (e : Env) : Env := ⟨e.entries.map fun (name, entry) => (r.name name, entry)⟩

def scopes (s : Scopes) : Scopes := ⟨r.env s.globals, s.locals.map r.env⟩

def report (x : Report) : Report := ⟨x.printed, r.env x.env, x.result.mapError r.failure⟩

/-! ### Tokens -/

@[simp] theorem token_identifier (name : String) :
    r.token (.identifier name) = .identifier (r.name name) := rfl

@[simp] theorem token_located (t : Located) : (r.located t).token = r.token t.token := rfl

/-- A token other than a name stays what it is, and no other token becomes it. -/
theorem token_eq_iff {t a : Token} (plain : ∀ name, a ≠ .identifier name) :
    r.token t = a ↔ t = a := by
  cases t with
  | identifier name => simp [token, (plain _).symm]
  | _ => rfl

@[simp] theorem opensCall_token (t : Token) : (r.token t).opensCall = t.opensCall := by
  cases t <;> rfl

@[simp] theorem productOperator?_token (t : Token) :
    (r.token t).productOperator? = t.productOperator? := by
  cases t <;> rfl

@[simp] theorem sumOperator?_token (t : Token) : (r.token t).sumOperator? = t.sumOperator? := by
  cases t <;> rfl

/-- An operational fault has nothing to relabel. -/
theorem fault_of_operational {f : Fault} (h : f.Operational) : r.fault f = f := by
  rcases h with domain | rfl
  · cases f with
    | unexpectedCharacter | unexpectedToken | undefinedName | unboundName | redefinedName
    | notCallable | notCaptured | mixedVariables => cases domain
    | _ => rfl
  · rfl

/-! ### Environments -/

/-- Names are found where they were, since no other name becomes the same. -/
@[simp] theorem get_env (e : Env) (name : String) : (r.env e).get (r.name name) = e.get name := by
  have found : (r.env e).entries.lookup (r.name name) = e.entries.lookup name := by
    obtain ⟨entries⟩ := e
    induction entries with
    | nil => rfl
    | cons entry entries ih =>
        obtain ⟨key, old⟩ := entry
        have same : (r.name name == r.name key) = (name == key) := by
          rw [Bool.eq_iff_iff, beq_iff_eq, beq_iff_eq, r.name_eq_iff]
        simp only [env, List.map_cons, List.lookup_cons, same] at ih ⊢
        rw [ih]
  rw [Env.get, Env.get, found]

@[simp] theorem contains_env (e : Env) (name : String) :
    (r.env e).contains (r.name name) = e.contains name := by
  rw [Env.contains, get_env, Env.contains]

@[simp] theorem isUnbound_env (e : Env) (name : String) :
    (r.env e).isUnbound (r.name name) = e.isUnbound name := by
  rw [Env.isUnbound, get_env, Env.isUnbound]

/-- The fault of a missing name has the new name. -/
theorem lookup_env (e : Env) (name : String) :
    (r.env e).lookup (r.name name) = (e.lookup name).mapError r.fault := by
  rw [Env.lookup, get_env, Env.lookup]
  cases e.get name <;> rfl

/-- Entries are replaced at the same place. -/
theorem put_entries (name : String) (entry : Option (Value Float))
    (entries : List (String × Option (Value Float))) :
    (Env.put name entry entries).map (fun (name, entry) => (r.name name, entry)) =
      Env.put (r.name name) entry (entries.map fun (name, entry) => (r.name name, entry)) := by
  induction entries with
  | nil => rfl
  | cons head entries ih =>
      simp only [Env.put, List.map_cons, r.name_eq_iff]
      split
      · rfl
      · rw [List.map_cons, ih]

theorem env_define (e : Env) (name : String) (v : Value Float) :
    r.env (e.define name v) = (r.env e).define (r.name name) v :=
  congrArg Env.mk (r.put_entries name (some v) e.entries)

theorem env_declare (e : Env) (name : String) :
    r.env (e.declare name) = (r.env e).declare (r.name name) :=
  congrArg Env.mk (r.put_entries name none e.entries)

/-! ### Scopes -/

@[simp] theorem current_scopes (s : Scopes) : (r.scopes s).current = r.env s.current := by
  obtain ⟨globals, locals⟩ := s
  cases locals <;> rfl

theorem scopes_define (s : Scopes) (name : String) (v : Value Float) :
    r.scopes (s.define name v) = (r.scopes s).define (r.name name) v := by
  obtain ⟨globals, locals⟩ := s
  cases locals <;> simp [scopes, Scopes.define, env_define]

theorem scopes_enter (s : Scopes) (captures : List String) :
    r.scopes (s.enter captures) = (r.scopes s).enter (captures.map r.name) := by
  have declared (e : Env) :
      r.env (captures.foldl Env.declare e) = (captures.map r.name).foldl Env.declare (r.env e) := by
    induction captures generalizing e with
    | nil => rfl
    | cons name captures ih => rw [List.foldl_cons, ih, env_declare, List.map_cons, List.foldl_cons]
  simp only [Scopes.enter, current_scopes, ← declared]
  rfl

/-- Events act on relabelled scopes as they do on the scopes themselves. -/
theorem scopes_after (s : Scopes) (e : Event) :
    r.scopes (s.after e) = (r.scopes s).after (r.event e) := by
  cases e with
  | declared | assigned => exact r.scopes_define _ _ _
  | entered => exact r.scopes_enter _ _
  | built => simp [event, Scopes.after, Scopes.leave, scopes, List.map_tail]
  | token | statement | called | printed => rfl

/-- So does a whole journal. -/
theorem scopes_replay (s : Scopes) (events : List Event) :
    r.scopes (s.replay events) = (r.scopes s).replay (events.map r.event) := by
  induction events generalizing s with
  | nil => rfl
  | cons e events ih => rw [Scopes.replay_cons, ih, scopes_after, List.map_cons, Scopes.replay_cons]

theorem effects_event (events : List Event) :
    effects (events.map r.event) = (effects events).map r.event := by
  induction events with
  | nil => rfl
  | cons e events ih =>
      cases e with
      | token => exact ih
      | _ => exact congrArg (List.cons _) ih

@[simp] theorem printedValues_event (events : List Event) :
    printedValues (events.map r.event) = printedValues events := by
  induction events with
  | nil => rfl
  | cons e events ih =>
      cases e with
      | printed => exact congrArg (List.cons _) ih
      | _ => exact ih

/-! ### Computations that agree -/

section

open Traced

variable {α β γ δ : Type}

/-- The second computation has the relabelled effects and the relabelled result
of the first. What tokens they see is left open. -/
def Agrees (f : α → β) (x : Traced α) (y : Traced β) : Prop :=
  effects y.events = (effects x.events).map r.event ∧
    y.result = (x.result.map f).mapError r.failure

/-- The tokens after a token agree if it is a name. -/
def SeesAlike (t next next' : Located) : Prop :=
  ∀ name, t.token = .identifier name → next'.token = r.token next.token

variable {r} {f : γ → δ} {t next next' : Located}

namespace Agrees

theorem pure (c : γ) : r.Agrees f (pure c) (pure (f c)) := ⟨rfl, rfl⟩

theorem fail (fault : Fault) (line : Nat) :
    r.Agrees f (fail fault line) (fail (r.fault fault) (r.line line)) := ⟨rfl, rfl⟩

theorem see {a b : Located} {g : Unit → Traced γ} {h : Unit → Traced δ}
    (rest : r.Agrees f (g ()) (h ())) : r.Agrees f (see a >>= g) (see b >>= h) := rest

theorem emit {events events' : List Event} {g : Unit → Traced γ} {h : Unit → Traced δ}
    (moved : events' = events.map r.event) (rest : r.Agrees f (g ()) (h ())) :
    r.Agrees f (emit events >>= g) (emit events' >>= h) := by
  refine ⟨?_, rest.2⟩
  rw [emit_bind, emit_bind, effects_append, effects_append, List.map_append, moved, effects_event,
    rest.1]

/-- Attempts agree if their results do and what follows agrees on every success. -/
theorem attempt {line : Nat} {x : Except Fault α} {y : Except Fault β} {m : α → β}
    {g : α → Traced γ} {h : β → Traced δ} (moved : y = (x.map m).mapError r.fault)
    (rest : ∀ a, x = .ok a → r.Agrees f (g a) (h (m a))) :
    r.Agrees f (attempt line x >>= g) (attempt (r.line line) y >>= h) := by
  subst moved
  cases x with
  | error fault => exact fail fault line
  | ok a => exact rest a rfl

/-- An operation on values is the same in both. -/
theorem operation {line : Nat} {x : Except Fault α} {g : α → Traced γ} {h : α → Traced δ}
    (operational : Operational x) (rest : ∀ a, r.Agrees f (g a) (h a)) :
    r.Agrees f (Traced.attempt line x >>= g) (Traced.attempt (r.line line) x >>= h) := by
  refine attempt (m := id) ?_ fun a _ => rest a
  cases x with
  | error fault => exact congrArg Except.error (r.fault_of_operational (operational fault rfl)).symm
  | ok a => rfl

theorem unexpected {expected : Expected} :
    r.Agrees f (unexpected t expected) (unexpected (r.located t) expected) := by
  unfold Traced.unexpected
  rw [token_located]
  cases t.token <;> exact fail _ _

/-- A token other than a name is expected in both. -/
theorem expect {token : Token} {expected : Expected} {g : Unit → Traced γ} {h : Unit → Traced δ}
    (plain : ∀ name, token ≠ .identifier name) (rest : r.Agrees f (g ()) (h ())) :
    r.Agrees f (expect t next token expected >>= g)
      (expect (r.located t) next' token expected >>= h) := by
  unfold PolyCalc.expect
  simp only [token_located, r.token_eq_iff plain]
  split
  · exact see rest
  · rw [unexpected_bind, unexpected_bind]
    exact unexpected

theorem literal {literal : String} {g : Float → Traced γ} {h : Float → Traced δ}
    (rest : ∀ x, r.Agrees f (g x) (h x)) :
    r.Agrees f (literalValue t literal >>= g) (literalValue (r.located t) literal >>= h) := by
  unfold literalValue
  split
  · exact rest _
  · exact fail _ _

/-- Whether a name is the variable depends on the environment and the token after it. -/
theorem unknownName {e : Env} {g : Option String → Traced γ} {h : Option String → Traced δ}
    (alike : r.SeesAlike t next next')
    (rest : ∀ name, r.Agrees f (g name) (h (name.map r.name))) :
    r.Agrees f (unknownName? e t next >>= g)
      (unknownName? (r.env e) (r.located t) next' >>= h) := by
  unfold unknownName?
  rw [token_located]
  cases found : t.token with
  | identifier name =>
      simp only [token_identifier, alike name found, opensCall_token, isUnbound_env, contains_env,
        r.token_eq_iff (a := .caret) (by simp), bind_assoc]
      refine see ?_
      by_cases opens : next.token.opensCall = true
      · rw [if_pos opens, if_pos opens]
        exact rest none
      rw [if_neg opens, if_neg opens]
      by_cases unbound : e.isUnbound name = true
      · rw [if_pos unbound, if_pos unbound]
        exact rest (some name)
      rw [if_neg unbound, if_neg unbound]
      split
      · exact fail _ _
      · exact rest none
  | _ => exact rest none

end Agrees

/-! One lemma for each part of the step function, in its order. -/

variable {e : Env}

theorem operandStep_agrees (alike : r.SeesAlike t next next') (k : Pending .operand) :
    r.Agrees r.mode (operandStep e t next k)
      (operandStep (r.env e) (r.located t) next' (r.pending k)) := by
  unfold operandStep
  rw [token_located]
  cases found : t.token with
  | number literal => exact .literal fun x => .see (.pure _)
  | minus => exact .see (.pure _)
  | identifier name =>
      simp only [token_identifier, alike name found, opensCall_token]
      refine .see (.see (.attempt (m := id) ?_ fun v bound => ?_))
      · rw [lookup_env]
        cases e.lookup name <;> rfl
      · by_cases opens : next.token.opensCall = true
        · rw [if_pos opens, if_pos opens, id]
          cases v.asCallable? with
          | some c => exact .pure _
          | none => exact .fail _ _
        · rw [if_neg opens, if_neg opens]
          exact .pure _
  | leftParen => exact .see (.pure _)
  | _ => exact .unexpected

theorem expressionStep_agrees (alike : r.SeesAlike t next next') (k : Pending .expression) :
    r.Agrees r.mode (expressionStep e t next k)
      (expressionStep (r.env e) (r.located t) next' (r.pending k)) := by
  have term := operandStep_agrees (e := e) alike (.firstOperand (.whole k))
  unfold expressionStep
  rw [token_located]
  cases found : t.token with
  | captureBegin => exact .see (.pure _)
  | identifier name =>
      simp only [token_identifier, alike name found, r.token_eq_iff (a := .assign) (by simp),
        contains_env]
      refine .see ?_
      split
      · refine .see ?_
        split
        · exact .pure _
        · exact .fail _ _
      · exact term
  | _ => exact term

theorem negatedStep_agrees (k : Pending .operand) :
    r.Agrees r.mode (negatedStep t next k) (negatedStep (r.located t) next' (r.pending k)) := by
  unfold negatedStep
  rw [token_located]
  cases t.token with
  | number literal => exact .literal fun x => .see (.pure _)
  | _ => exact .unexpected

/-! ### Calls -/

theorem finishCall_agrees (call : Call) (k : Pending .operand) :
    r.Agrees r.mode (finishCall call k) (finishCall (r.call call) (r.pending k)) := by
  have printed (values : List (Value Float)) :
      values.map Event.printed = (values.map Event.printed).map r.event := by
    simp [event]
  exact .emit rfl (.operation (Callable.invoke_operational _ _) fun answer =>
    .emit (printed answer.printed) (.pure _))

theorem finishGenerics_agrees (call : Call) (generics : List Float) (k : Pending .operand) :
    r.Agrees r.mode (finishGenerics call generics k)
      (finishGenerics (r.call call) generics (r.pending k)) :=
  .operation (Callable.specialize_operational _ _) fun _ => .pure _

theorem calleeStep_agrees (call : Call) (k : Pending .operand) :
    r.Agrees r.mode (calleeStep t next call k)
      (calleeStep (r.located t) next' (r.call call) (r.pending k)) := by
  unfold calleeStep
  rw [token_located]
  cases t.token with
  | genericBegin => exact .see (.pure _)
  | _ => exact .expect (by simp) (.pure _)

theorem genericStep_agrees (call : Call) (generics : List Float) (k : Pending .operand) :
    r.Agrees r.mode (genericStep t next call generics k)
      (genericStep (r.located t) next' (r.call call) generics (r.pending k)) := by
  unfold genericStep
  rw [token_located]
  cases t.token with
  | number literal => exact .literal fun x => .see (.pure _)
  | minus => exact .see (.pure _)
  | _ => exact .unexpected

theorem negatedGenericStep_agrees (call : Call) (generics : List Float) (k : Pending .operand) :
    r.Agrees r.mode (negatedGenericStep t next call generics k)
      (negatedGenericStep (r.located t) next' (r.call call) generics (r.pending k)) := by
  unfold negatedGenericStep
  rw [token_located]
  cases t.token with
  | number literal => exact .literal fun x => .see (.pure _)
  | _ => exact .unexpected

theorem firstGenericStep_agrees (call : Call) (k : Pending .operand) :
    r.Agrees r.mode (firstGenericStep t next call k)
      (firstGenericStep (r.located t) next' (r.call call) (r.pending k)) := by
  unfold firstGenericStep
  rw [token_located]
  cases t.token with
  | genericEnd => exact .see (finishGenerics_agrees _ _ _)
  | _ => exact genericStep_agrees _ _ _

theorem afterGenericStep_agrees (call : Call) (generics : List Float) (k : Pending .operand) :
    r.Agrees r.mode (afterGenericStep t next call generics k)
      (afterGenericStep (r.located t) next' (r.call call) generics (r.pending k)) := by
  unfold afterGenericStep
  rw [token_located]
  cases t.token with
  | comma => exact .see (.pure _)
  | _ => exact .expect (by simp) (finishGenerics_agrees _ _ _)

theorem firstArgumentStep_agrees (alike : r.SeesAlike t next next') (call : Call)
    (k : Pending .operand) :
    r.Agrees r.mode (firstArgumentStep e t next call k)
      (firstArgumentStep (r.env e) (r.located t) next' (r.call call) (r.pending k)) := by
  have argument := expressionStep_agrees (e := e) alike (.expression (.argument call k))
  unfold firstArgumentStep
  rw [token_located]
  cases t.token with
  | rightParen => exact .see (finishCall_agrees _ _)
  | _ => exact argument

/-! ### Where expressions go -/

theorem goalStep_agrees (v : Value Float) (k : Pending .goal) :
    r.Agrees r.mode (goalStep t next v k) (goalStep (r.located t) next' v (r.pending k)) := by
  cases k with
  | discard => exact .expect (by simp) (.pure _)
  | declare name => exact .emit rfl (.expect (by simp) (.pure _))
  | group k => exact .expect (by simp) (.pure _)
  | argument call k =>
      simp only [goalStep, pending, token_located]
      cases t.token with
      | comma => exact .see (.pure _)
      | _ => exact .expect (by simp) (finishCall_agrees (call.push v) k)

theorem deliver_agrees (v : Value Float) (k : Pending .expression) :
    r.Agrees r.mode (deliver t next v k) (deliver (r.located t) next' v (r.pending k)) := by
  cases k with
  | into targets k => exact .emit (by simp [event]) (goalStep_agrees v k)

/-! ### Lambdas -/

theorem captureStep_agrees (line : Nat) (names : List String) (k : Pending .expression) :
    r.Agrees r.mode (captureStep t next line names k)
      (captureStep (r.located t) next' (r.line line) (names.map r.name) (r.pending k)) := by
  unfold captureStep
  rw [token_located]
  cases t.token with
  | identifier name =>
      have named : (names ++ [name]).map r.name = names.map r.name ++ [r.name name] := by simp
      simp only [token_identifier, ← named]
      exact .see (.pure (Mode.afterCapture line (names ++ [name]) k))
  | _ => exact .unexpected

theorem firstCaptureStep_agrees (line : Nat) (k : Pending .expression) :
    r.Agrees r.mode (firstCaptureStep t next line k)
      (firstCaptureStep (r.located t) next' (r.line line) (r.pending k)) := by
  unfold firstCaptureStep
  rw [token_located]
  cases t.token with
  | captureEnd => exact .see (.pure _)
  | _ => exact captureStep_agrees _ _ _

theorem afterCaptureStep_agrees (line : Nat) (names : List String) (k : Pending .expression) :
    r.Agrees r.mode (afterCaptureStep t next line names k)
      (afterCaptureStep (r.located t) next' (r.line line) (names.map r.name) (r.pending k)) := by
  unfold afterCaptureStep
  rw [token_located]
  cases t.token with
  | comma => exact .see (.pure _)
  | _ => exact .expect (by simp) (.pure _)

theorem arrowStep_agrees (line : Nat) (names : List String) (k : Pending .expression) :
    r.Agrees r.mode (arrowStep t next line names k)
      (arrowStep (r.located t) next' (r.line line) (names.map r.name) (r.pending k)) :=
  .expect (by simp) (.emit rfl (.pure _))

/-- A second variable is another one in both or in neither. -/
theorem takeVariable_agrees (l : Lambda) (name : String) (c : Float) (k : Pending .expression) :
    r.Agrees r.mode (takeVariable t next l name c k)
      (takeVariable (r.located t) next' (r.lambda l) (r.name name) c (r.pending k)) := by
  refine .attempt (m := r.lambda) ?_ fun l _ => .see (.pure _)
  obtain ⟨captures, line, unknown, coefficients⟩ := l
  cases unknown with
  | none => rfl
  | some expected =>
      simp only [Lambda.use, lambda, Option.map_some, r.name_eq_iff]
      split <;> rfl

theorem factorStep_agrees (alike : r.SeesAlike t next next') (l : Lambda) (sign : Float)
    (sofar : Option (Operator × Float)) (k : Pending .expression) :
    r.Agrees r.mode (factorStep e t next l sign sofar k)
      (factorStep (r.env e) (r.located t) next' (r.lambda l) sign sofar (r.pending k)) :=
  .unknownName alike fun _ => operandStep_agrees alike (.coefficient l sign sofar t.line k)

theorem componentStep_agrees (alike : r.SeesAlike t next next') (l : Lambda) (sign : Float)
    (k : Pending .expression) :
    r.Agrees r.mode (componentStep e t next l sign k)
      (componentStep (r.env e) (r.located t) next' (r.lambda l) sign (r.pending k)) := by
  refine .unknownName alike fun name => ?_
  cases name with
  | some name => exact .see (takeVariable_agrees _ _ _ _)
  | none => exact factorStep_agrees alike _ _ _ _

theorem bodyStep_agrees (alike : r.SeesAlike t next next') (l : Lambda)
    (k : Pending .expression) :
    r.Agrees r.mode (bodyStep e t next l k)
      (bodyStep (r.env e) (r.located t) next' (r.lambda l) (r.pending k)) := by
  have component := componentStep_agrees (e := e) alike l 1.0 k
  unfold bodyStep
  rw [token_located]
  cases t.token with
  | minus => exact .see (.pure _)
  | _ => exact component

theorem afterOperatorStep_agrees (alike : r.SeesAlike t next next') (l : Lambda) (sign : Float)
    (op : Operator) (c : Float) (k : Pending .expression) :
    r.Agrees r.mode (afterOperatorStep e t next l sign op c k)
      (afterOperatorStep (r.env e) (r.located t) next' (r.lambda l) sign op c (r.pending k)) := by
  unfold afterOperatorStep
  split
  · refine .unknownName alike fun name => ?_
    cases name with
    | some name => exact .see (takeVariable_agrees _ _ _ _)
    | none => exact factorStep_agrees alike _ _ _ _
  · exact factorStep_agrees alike _ _ _ _

theorem afterComponentStep_agrees (l : Lambda) (k : Pending .expression) :
    r.Agrees r.mode (afterComponentStep t next l k)
      (afterComponentStep (r.located t) next' (r.lambda l) (r.pending k)) := by
  unfold afterComponentStep
  rw [token_located, sumOperator?_token]
  split
  · exact .see (.pure _)
  · exact .emit rfl (deliver_agrees _ _)

/-- The sums of a lambda do not depend on its names. -/
theorem addTerm_agrees {line : Nat} {l : Lambda} {c : Float} {power : Nat}
    {g h : Lambda → Traced Mode} (rest : ∀ l, r.Agrees r.mode (g l) (h (r.lambda l))) :
    r.Agrees r.mode (attempt line (l.add c power) >>= g)
      (attempt (r.line line) ((r.lambda l).add c power) >>= h) := by
  refine .attempt (m := r.lambda) ?_ fun l _ => rest l
  have operational := l.add_operational c power
  unfold Lambda.add at operational ⊢
  revert operational
  simp only [lambda]
  cases addAt (l.coefficients ++ Array.replicate (power + 1 - l.coefficients.size) 0.0) power c with
  | error fault =>
      exact fun operational =>
        congrArg Except.error (r.fault_of_operational (operational fault rfl)).symm
  | ok coefficients => exact fun _ => rfl

theorem afterVariableStep_agrees (l : Lambda) (c : Float) (k : Pending .expression) :
    r.Agrees r.mode (afterVariableStep t next l c k)
      (afterVariableStep (r.located t) next' (r.lambda l) c (r.pending k)) := by
  unfold afterVariableStep
  rw [token_located]
  cases t.token with
  | caret => exact .see (.pure _)
  | _ => exact addTerm_agrees fun l => afterComponentStep_agrees l k

theorem exponentStep_agrees (v : Value Float) (l : Lambda) (c : Float) (line : Nat)
    (k : Pending .expression) :
    r.Agrees r.mode (exponentStep t next v l c line k)
      (exponentStep (r.located t) next' v (r.lambda l) c (r.line line) (r.pending k)) :=
  .operation v.asNumber_operational fun x => .expect (by simp) (.operation (powerOf_operational x)
    fun _ => addTerm_agrees fun _ => .pure _)

theorem coefficientStep_agrees (alike : r.SeesAlike t next next') (v : Value Float) (l : Lambda)
    (sign : Float) (sofar : Option (Operator × Float)) (line : Nat) (k : Pending .expression) :
    r.Agrees r.mode (coefficientStep e t next v l sign sofar line k)
      (coefficientStep (r.env e) (r.located t) next' v (r.lambda l) sign sofar (r.line line)
        (r.pending k)) := by
  refine .operation v.asNumber_operational fun x => ?_
  dsimp only
  rw [token_located, productOperator?_token]
  split
  · exact .see (.pure _)
  · refine .unknownName alike fun name => ?_
    cases name with
    | some name => exact takeVariable_agrees _ _ _ _
    | none => exact addTerm_agrees fun l => afterComponentStep_agrees l k

/-! ### After operands -/

theorem sumStep_agrees (v : Value Float) (k : Pending .term) :
    r.Agrees r.mode (sumStep t next v k) (sumStep (r.located t) next' v (r.pending k)) := by
  unfold sumStep
  rw [token_located, sumOperator?_token]
  split
  · exact .see (.pure _)
  · cases k with
    | whole k => exact deliver_agrees v k
    | exponent l c line k => exact exponentStep_agrees v l c line k

theorem productStep_agrees (v : Value Float) (k : Pending .addend) :
    r.Agrees r.mode (productStep t next v k)
      (productStep (r.located t) next' v (r.pending k)) := by
  unfold productStep
  rw [token_located, productOperator?_token]
  split
  · exact .see (.pure _)
  · cases k with
    | firstAddend k => exact sumStep_agrees v k
    | addTo op lhs line k =>
        exact .operation (op.apply_operational lhs v) fun w => sumStep_agrees w k

theorem valueStep_agrees (alike : r.SeesAlike t next next') (v : Value Float)
    (k : Pending .operand) :
    r.Agrees r.mode (valueStep e t next v k)
      (valueStep (r.env e) (r.located t) next' v (r.pending k)) := by
  cases k with
  | firstFactor k => exact productStep_agrees v k
  | multiplyInto op lhs line k =>
      exact .operation (op.apply_operational lhs v) fun w => productStep_agrees w k
  | coefficient l sign sofar line k => exact coefficientStep_agrees alike v l sign sofar line k

/-! ### Statements and all modes -/

theorem statementStep_agrees (alike : r.SeesAlike t next next') :
    r.Agrees r.mode (statementStep e t next) (statementStep (r.env e) (r.located t) next') := by
  have bare := expressionStep_agrees (e := e) alike (.expression .discard)
  unfold statementStep
  rw [token_located]
  cases t.token with
  | endOfFile => exact .pure _
  | var => exact .emit rfl (.see (.pure _))
  | _ => exact .emit rfl bare

theorem declareNameStep_agrees :
    r.Agrees r.mode (declareNameStep e t next)
      (declareNameStep (r.env e) (r.located t) next') := by
  unfold declareNameStep
  rw [token_located]
  cases t.token with
  | identifier name =>
      simp only [token_identifier, contains_env]
      refine .see ?_
      split
      · exact .fail _ _
      · exact .pure _
  | _ => exact .unexpected

/-- The step at a relabelled token is the relabelled step. -/
theorem step_agrees (alike : r.SeesAlike t next next') (m : Mode) :
    r.Agrees r.mode (step e t next m) (step (r.env e) (r.located t) next' (r.mode m)) := by
  cases m with
  | statement => exact statementStep_agrees alike
  | declareName => exact declareNameStep_agrees
  | declareSign name => exact .expect (by simp) (.pure _)
  | expression k => exact expressionStep_agrees alike k
  | assignSign name k =>
      cases k with
      | into targets k => exact .expect (by simp) (.pure _)
  | operand k => exact operandStep_agrees alike k
  | negated k => exact negatedStep_agrees k
  | value v k => exact valueStep_agrees alike v k
  | callee call k => exact calleeStep_agrees call k
  | firstGeneric call k => exact firstGenericStep_agrees call k
  | generic call generics k => exact genericStep_agrees call generics k
  | negatedGeneric call generics k => exact negatedGenericStep_agrees call generics k
  | afterGeneric call generics k => exact afterGenericStep_agrees call generics k
  | openArguments call k => exact .expect (by simp) (.pure _)
  | firstArgument call k => exact firstArgumentStep_agrees alike call k
  | firstCapture line k => exact firstCaptureStep_agrees line k
  | capture line names k => exact captureStep_agrees line names k
  | afterCapture line names k => exact afterCaptureStep_agrees line names k
  | arrow line names k => exact arrowStep_agrees line names k
  | body l k => exact bodyStep_agrees alike l k
  | component l sign k => exact componentStep_agrees alike l sign k
  | factor l sign op c k => exact afterOperatorStep_agrees alike l sign op c k
  | afterVariable l c k => exact afterVariableStep_agrees l c k
  | openExponent l c line k => exact .expect (by simp) (.pure _)
  | afterComponent l k => exact afterComponentStep_agrees l k

end

/-! ### Evaluations -/

/-- Steps that agree have relabelled reports if what follows them has. -/
theorem ofStep_relabel {r : Relabel} {s : Scopes} {x y : Traced Mode}
    {rest rest' : Scopes → Mode → Report} (agree : r.Agrees r.mode x y)
    (go : ∀ s m, rest' (r.scopes s) (r.mode m) = r.report (rest s m)) :
    Report.ofStep (r.scopes s) y rest' = r.report (Report.ofStep s x rest) := by
  obtain ⟨events, result⟩ := agree
  simp only [Report.ofStep, events, result, ← scopes_replay, printedValues_event]
  cases x.result with
  | ok m => exact congrArg (Report.after _) (go _ m)
  | error failure => rfl

/-- The evaluation of a relabelled program is the relabelled evaluation. -/
theorem evaluate_relabel (s : Scopes) (m : Mode) (ts : List Located) :
    (evaluate (r.scopes s) (r.mode m) (ts.map r.located)).report =
      r.report (evaluate s m ts).report := by
  induction ts generalizing s m with
  | nil => rfl
  | cons t ts ih =>
      have head : (ts.map r.located).headD (r.located t) = r.located (ts.headD t) := by
        cases ts <;> rfl
      rw [List.map_cons, evaluate_cons_report, evaluate_cons_report, head, current_scopes]
      exact ofStep_relabel (step_agrees (fun _ _ => rfl) m) ih

/-- So are its effects, in order. -/
theorem evaluate_effects (s : Scopes) (m : Mode) (ts : List Located) :
    effects (evaluate (r.scopes s) (r.mode m) (ts.map r.located)).journal =
      (effects (evaluate s m ts).journal).map r.event := by
  induction ts generalizing s m with
  | nil => rfl
  | cons t ts ih =>
      have head : (ts.map r.located).headD (r.located t) = r.located (ts.headD t) := by
        cases ts <;> rfl
      have agree : r.Agrees r.mode (step s.current t (ts.headD t) m)
          (step (r.env s.current) (r.located t) (r.located (ts.headD t)) (r.mode m)) :=
        step_agrees (fun _ _ => rfl) m
      obtain ⟨events, result⟩ := agree
      have scopes : (r.scopes s).replay (step (r.env s.current) (r.located t)
          (r.located (ts.headD t)) (r.mode m)).events =
            r.scopes (s.replay (step s.current t (ts.headD t) m).events) := by
        rw [← Scopes.replay_effects, events, ← scopes_replay, Scopes.replay_effects]
      simp only [List.map_cons, evaluate, head, current_scopes, result, scopes]
      cases (step s.current t (ts.headD t) m).result with
      | error failure => exact events
      | ok m' =>
          show effects (_ ++ _) = (effects (_ ++ _)).map r.event
          rw [effects_append, effects_append, List.map_append, events]
          exact congrArg _ (ih _ m')

/-! ### Moves -/

/-- Moves the tokens and keeps the names. -/
def move (offset line column : Nat → Nat) : Relabel := ⟨id, id, offset, line, column⟩

@[simp] theorem env_move (offset line column : Nat → Nat) (e : Env) :
    (move offset line column).env e = e := by
  simp [env, move]

@[simp] theorem token_move (offset line column : Nat → Nat) (t : Token) :
    (move offset line column).token t = t := by
  cases t <;> rfl

/-- If columns stay, so do faults. -/
theorem fault_move (offset line : Nat → Nat) (f : Fault) : (move offset line id).fault f = f := by
  cases f with
  | unexpectedToken found expected => simp [fault]
  | _ => rfl

/-- Changes nothing. -/
def refl : Relabel := move id id id

@[simp] theorem lambda_refl (l : Lambda) : refl.lambda l = l := by
  simp [lambda, refl, move]

@[simp] theorem pending_refl {s : Stage} (k : Pending s) : refl.pending k = k := by
  induction k with
  | into targets k ih =>
      rw [pending, ih]
      simp [refl, move]
  | exponent l c line k ih | coefficient l sign sofar line k ih =>
      rw [pending, ih, lambda_refl]
      rfl
  | argument call k ih => exact congrArg (Pending.argument call) ih
  | addTo op lhs line k ih => exact congrArg (Pending.addTo op lhs line) ih
  | multiplyInto op lhs line k ih => exact congrArg (Pending.multiplyInto op lhs line) ih
  | group k ih | whole k ih | firstAddend k ih | firstFactor k ih => rw [pending, ih]
  | discard | declare => rfl

@[simp] theorem mode_refl (m : Mode) : refl.mode m = m := by
  have names (xs : List String) : xs.map refl.name = xs := by simp [refl, move]
  cases m <;> simp only [mode, pending_refl, lambda_refl, names] <;> rfl

theorem event_refl (e : Event) : refl.event e = e := by
  have names (xs : List String) : xs.map refl.name = xs := by simp [refl, move]
  cases e with
  | token t => exact congrArg (fun token => Event.token ⟨token, t.start⟩) (token_move id id id _)
  | entered captures => exact congrArg Event.entered (names captures)
  | built captures line p => exact congrArg (Event.built · line p) (names captures)
  | _ => rfl

/-- At a token other than a name, a step does not depend on the token after it. -/
theorem step_next {e : Env} {t next next' : Located}
    (unnamed : ∀ name, t.token ≠ .identifier name) (m : Mode) :
    effects (step e t next' m).events = effects (step e t next m).events ∧
      (step e t next' m).result = (step e t next m).result := by
  have agree : refl.Agrees refl.mode (step e t next m)
      (step (refl.env e) (refl.located t) next' (refl.mode m)) :=
    step_agrees (fun name found => absurd found (unnamed name)) m
  have environment : refl.env e = e := env_move ..
  have token : refl.located t = t := congrArg (Located.mk · t.start) (token_move ..)
  have events : refl.event = id := funext event_refl
  have modes : refl.mode = id := funext mode_refl
  have failures : refl.failure = id :=
    funext fun f => congrArg (Failure.mk · f.line) (fault_move ..)
  rw [Agrees, environment, token, events, modes, failures, List.map_id] at agree
  refine ⟨agree.1, agree.2.trans ?_⟩
  cases (step e t next m).result <;> rfl

end Relabel

end PolyCalc
