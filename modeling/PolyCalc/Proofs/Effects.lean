import PolyCalc.Eval.Run

/-!
Effects of steps.

A journal also lists every sight of a token. What an evaluation leaves behind
comes from the other events alone, its `effects`: the scopes after a journal and
the values it prints are those of its effects (`Scopes.replay_effects`,
`printedValues_effects`). The laws of `Traced` below peel a step apart from its
first action on.
-/

namespace PolyCalc

/-- Whether the event is the sight of a token. -/
def Event.isSight : Event → Bool
  | .token _ => true
  | _ => false

/-- The events other than sights of tokens. -/
def effects (events : List Event) : List Event := events.filter fun e => !e.isSight

@[simp] theorem effects_nil : effects [] = [] := rfl

@[simp] theorem effects_append (xs ys : List Event) :
    effects (xs ++ ys) = effects xs ++ effects ys :=
  List.filter_append ..

@[simp] theorem effects_token (t : Located) (events : List Event) :
    effects (.token t :: events) = effects events := rfl

@[simp] theorem effects_printed (values : List (Value Float)) :
    effects (values.map .printed) = values.map .printed := by
  simp [effects, Event.isSight]

@[simp] theorem effects_tokens (tokens : List Located) : effects (tokens.map .token) = [] := by
  simp [effects, Event.isSight]

/-! ### Scopes and printed values -/

namespace Scopes

@[simp] theorem replay_nil (s : Scopes) : s.replay [] = s := rfl

@[simp] theorem replay_cons (s : Scopes) (e : Event) (events : List Event) :
    s.replay (e :: events) = (s.after e).replay events := rfl

@[simp] theorem replay_append (s : Scopes) (xs ys : List Event) :
    s.replay (xs ++ ys) = (s.replay xs).replay ys :=
  List.foldl_append

/-- Printing does not touch the scopes. -/
@[simp] theorem replay_printed (s : Scopes) (values : List (Value Float)) :
    s.replay (values.map .printed) = s := by
  induction values with
  | nil => rfl
  | cons v values ih => exact ih

/-- Sights of tokens do not touch the scopes. -/
theorem replay_effects (s : Scopes) (events : List Event) :
    s.replay (effects events) = s.replay events := by
  induction events generalizing s with
  | nil => rfl
  | cons e events ih => cases e <;> exact ih _

end Scopes

@[simp] theorem printedValues_nil : printedValues [] = [] := rfl

@[simp] theorem printedValues_append (xs ys : List Event) :
    printedValues (xs ++ ys) = printedValues xs ++ printedValues ys :=
  List.filterMap_append

@[simp] theorem printedValues_tokens (tokens : List Located) :
    printedValues (tokens.map .token) = [] := by
  induction tokens with
  | nil => rfl
  | cons t tokens ih => exact ih

@[simp] theorem printedValues_printed (values : List (Value Float)) :
    printedValues (values.map .printed) = values := by
  induction values with
  | nil => rfl
  | cons v values ih => exact congrArg (v :: ·) ih

/-- Sights of tokens print nothing. -/
theorem printedValues_effects (events : List Event) :
    printedValues (effects events) = printedValues events := by
  induction events with
  | nil => rfl
  | cons e events ih =>
      cases e with
      | printed v => exact congrArg (v :: ·) ih
      | _ => exact ih

/-! ### Laws of steps -/

namespace Traced

variable {α β γ : Type}

/-- What follows a success is done after it. -/
theorem ok_bind (events : List Event) (a : α) (f : α → Traced β) :
    (⟨events, .ok a⟩ : Traced α) >>= f = ⟨events ++ (f a).events, (f a).result⟩ := rfl

/-- Nothing follows a failure. -/
theorem error_bind (events : List Event) (failure : Failure) (f : α → Traced β) :
    (⟨events, .error failure⟩ : Traced α) >>= f = ⟨events, .error failure⟩ := rfl

theorem bind_assoc (x : Traced α) (f : α → Traced β) (g : β → Traced γ) :
    x >>= f >>= g = x >>= fun a => f a >>= g := by
  obtain ⟨events, result⟩ := x
  cases result with
  | error failure => rfl
  | ok a =>
      rw [ok_bind, ok_bind]
      obtain ⟨more, result⟩ := f a
      cases result with
      | error failure => simp only [error_bind]
      | ok b => simp only [ok_bind, List.append_assoc]

@[simp] theorem pure_bind (a : α) (f : α → Traced β) : (pure a : Traced α) >>= f = f a := rfl

theorem emit_bind (events : List Event) (f : Unit → Traced α) :
    emit events >>= f = ⟨events ++ (f ()).events, (f ()).result⟩ := rfl

/-- An unexpected token ends the step, whatever was to follow. -/
@[simp] theorem unexpected_bind (t : Located) (expected : Expected) (f : α → Traced β) :
    unexpected t expected >>= f = unexpected t expected := by
  unfold unexpected
  split <;> rfl

end Traced

/-! ### Runs -/

namespace Outcome

@[simp] theorem after_env (events : List Event) (o : Outcome) : (o.after events).env = o.env := rfl

@[simp] theorem after_result (events : List Event) (o : Outcome) :
    (o.after events).result = o.result := rfl

/-- Events before an evaluation are printed before it. -/
@[simp] theorem after_printed (events : List Event) (o : Outcome) :
    (o.after events).printed = printedValues events ++ o.printed :=
  printedValues_append ..

/-- The failure that ends the outcome, if there is one. -/
def failure? (o : Outcome) : Option Failure :=
  match o.result with
  | .ok () => none
  | .error failure => some failure

theorem failure?_eq_some {o : Outcome} {failure : Failure} :
    o.failure? = some failure ↔ o.result = .error failure := by
  unfold failure?
  cases o.result with
  | ok => simp
  | error other => simp

end Outcome

/-- An evaluation comes to its end through a successful step. -/
theorem evaluate_cons_ok {scopes : Scopes} {m : Mode} {t : Located} {rest : List Located}
    (ok : (evaluate scopes m (t :: rest)).result = .ok ()) :
    ∃ m', (step scopes.current t (rest.headD t) m).result = .ok m' ∧
      (evaluate (scopes.replay (step scopes.current t (rest.headD t) m).events) m' rest).result =
        .ok () := by
  rw [evaluate] at ok
  split at ok
  · rename_i m' stepped
    exact ⟨m', stepped, ok⟩
  · cases ok

/-- The effects of a step come before those of the evaluation that goes on from it. -/
theorem evaluate_cons_effects {scopes : Scopes} {m m' : Mode} {t : Located} {rest : List Located}
    (stepped : (step scopes.current t (rest.headD t) m).result = .ok m') :
    effects (evaluate scopes m (t :: rest)).journal =
      effects (step scopes.current t (rest.headD t) m).events ++
        effects (evaluate (scopes.replay (step scopes.current t (rest.headD t) m).events) m'
          rest).journal := by
  rw [evaluate, stepped]
  exact effects_append ..

/-! ### Reports -/

/-- What an evaluation shows: the printed values, the environment, and whether it
came to the end. -/
structure Report where
  printed : List (Value Float)
  env : Env
  result : Except Failure Unit

namespace Report

/-- The report with printed values before its own. -/
def after (values : List (Value Float)) (r : Report) : Report :=
  { r with printed := values ++ r.printed }

/-- The report of an evaluation that begins with a step and then goes on as
given. -/
def ofStep (scopes : Scopes) (stepped : Traced Mode) (rest : Scopes → Mode → Report) : Report :=
  let done := effects stepped.events
  match stepped.result with
  | .ok m => (rest (scopes.replay done) m).after (printedValues done)
  | .error failure => ⟨printedValues done, (scopes.replay done).globals, .error failure⟩

/-- What a step prints first comes first in its report. -/
theorem ofStep_printed (scopes : Scopes) (values : List (Value Float)) (f : Unit → Traced Mode)
    (rest : Scopes → Mode → Report) :
    ofStep scopes (Traced.emit (values.map .printed) >>= f) rest =
      (ofStep scopes (f ()) rest).after values := by
  simp only [ofStep, Traced.emit_bind, effects_append, effects_printed, Scopes.replay_append,
    Scopes.replay_printed, printedValues_append, printedValues_printed]
  cases (f ()).result with
  | ok m => simp [after]
  | error failure => rfl

end Report

/-- What an outcome shows, without its journal. -/
def Outcome.report (o : Outcome) : Report := ⟨o.printed, o.env, o.result⟩

@[simp] theorem Outcome.after_report (events : List Event) (o : Outcome) :
    (o.after events).report = o.report.after (printedValues events) := by
  simp [report, Report.after]

/-- The report of an evaluation is made of its first step and of what follows. Only
the effects of the step count for it. -/
theorem evaluate_cons_report (scopes : Scopes) (m : Mode) (t : Located) (rest : List Located) :
    (evaluate scopes m (t :: rest)).report =
      .ofStep scopes (step scopes.current t (rest.headD t) m) fun scopes m =>
        (evaluate scopes m rest).report := by
  simp only [evaluate, Report.ofStep, Scopes.replay_effects, printedValues_effects]
  cases (step scopes.current t (rest.headD t) m).result with
  | ok m => exact Outcome.after_report _ _
  | error failure => rfl

section

variable (env : Env) (source : String)

/-- The tokens that a program sees at its start show in its journal only. -/
theorem program_report :
    (program env source).report = (evaluate ⟨env, []⟩ .statement (scan source)).report := by
  rw [program, evaluateTokens, Outcome.after_report, printedValues_tokens]
  rfl

theorem program_result :
    (program env source).result = (evaluate ⟨env, []⟩ .statement (scan source)).result := rfl

theorem program_printed :
    (program env source).printed = (evaluate ⟨env, []⟩ .statement (scan source)).printed := by
  rw [program, evaluateTokens, Outcome.after_printed, printedValues_tokens, List.nil_append]

theorem program_effects :
    effects (program env source).journal =
      effects (evaluate ⟨env, []⟩ .statement (scan source)).journal := by
  rw [program, evaluateTokens, Outcome.after, effects_append, effects_tokens, List.nil_append]

end

end PolyCalc
