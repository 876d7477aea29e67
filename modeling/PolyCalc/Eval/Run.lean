import PolyCalc.Eval.Step
import PolyCalc.Scanner

/-!
Whole programs.

A program is evaluated token by token, from the first to the end of the text.
The first failure ends it; what was done before stays done. The environments of
unfinished lambda bodies are dropped, so the environment of an outcome is that
of the program alone.
-/

namespace PolyCalc

/-- What an evaluation leaves: its journal, the environment, and whether it came
to the end. -/
structure Outcome where
  journal : List Event
  env : Env
  result : Except Failure Unit

namespace Outcome

/-- The outcome with events before its own. -/
def after (events : List Event) (o : Outcome) : Outcome :=
  { o with journal := events ++ o.journal }

/-- The printed values, in order. -/
def printed (o : Outcome) : List (Value Float) := printedValues o.journal

end Outcome

/-- Evaluates the tokens from a mode on. -/
def evaluate (scopes : Scopes) (mode : Mode) : List Located → Outcome
  | [] => ⟨[], scopes.globals, .ok ()⟩
  | t :: rest =>
      let stepped := step scopes.current t (rest.headD t) mode
      let scopes := scopes.replay stepped.events
      match stepped.result with
      | .ok mode => (evaluate scopes mode rest).after stepped.events
      | .error failure => ⟨stepped.events, scopes.globals, .error failure⟩

/-- Evaluates the tokens of a program. -/
def evaluateTokens (env : Env) (tokens : List Located) : Outcome :=
  (evaluate ⟨env, []⟩ .statement tokens).after ((tokens.take 1).map .token)

/-- Evaluates the text of a program in an environment. -/
def program (env : Env) (source : String) : Outcome := evaluateTokens env (scan source)

end PolyCalc
