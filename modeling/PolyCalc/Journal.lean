import PolyCalc.Env
import PolyCalc.Token

/-!
The journal of an evaluation.

Whatever an evaluation does is an event: it sees tokens, binds names, enters
and leaves the bodies of lambdas, calls and prints. The journal lists the events
in order, and everything else is read off it: the environment (`Scopes.replay`),
the printed values (`printedValues`) and the log.

A step of the evaluator is `Traced`: it has the events up to its end, and either
a result or a failure. Events before a failure stay.
-/

namespace PolyCalc

/-- What an evaluation does. -/
inductive Event where
  /-- A token is read, or looked at ahead of its turn. -/
  | token (t : Located)
  /-- A statement begins on a line. -/
  | statement (line : Nat)
  | declared (name : String) (value : Value Float)
  | assigned (name : String) (value : Value Float)
  | called (name : String) (arguments : Nat)
  | printed (value : Value Float)
  /-- The body of a lambda begins; the captured names lose their values in it. -/
  | entered (captures : List String)
  /-- The body of a lambda has ended. -/
  | built (captures : List String) (line : Nat) (p : Poly Float)
deriving Repr

/-- The printed values, in order. -/
def printedValues (journal : List Event) : List (Value Float) :=
  journal.filterMap fun
    | .printed v => some v
    | _ => none

/-! ### Scopes -/

/-- The environment of the program and those of the lambda bodies that are being
evaluated, the innermost first. -/
structure Scopes where
  globals : Env
  locals : List Env
deriving Repr

namespace Scopes

/-- The environment in use. -/
def current (s : Scopes) : Env := s.locals.headD s.globals

/-- Binds a name in the environment in use. -/
def define (s : Scopes) (name : String) (value : Value Float) : Scopes :=
  match s.locals with
  | [] => { s with globals := s.globals.define name value }
  | env :: outer => { s with locals := env.define name value :: outer }

/-- Begins a body, in a copy of the environment in use. -/
def enter (s : Scopes) (captures : List String) : Scopes :=
  { s with locals := captures.foldl Env.declare s.current :: s.locals }

/-- Ends the innermost body and drops its environment. -/
def leave (s : Scopes) : Scopes := { s with locals := s.locals.tail }

/-- The scopes after an event. -/
def after (s : Scopes) : Event → Scopes
  | .declared name value | .assigned name value => s.define name value
  | .entered captures => s.enter captures
  | .built .. => s.leave
  | .token _ | .statement _ | .called .. | .printed _ => s

/-- The scopes after some events. -/
def replay (s : Scopes) (events : List Event) : Scopes := events.foldl after s

end Scopes

/-! ### Steps with events -/

/-- A computation with events that may fail. -/
structure Traced (α : Type) where
  events : List Event
  result : Except Failure α

namespace Traced

instance : Monad Traced where
  pure a := ⟨[], .ok a⟩
  bind x f :=
    match x.result with
    | .ok a => ⟨x.events ++ (f a).events, (f a).result⟩
    | .error failure => ⟨x.events, .error failure⟩

/-- Records events. -/
def emit (events : List Event) : Traced Unit := ⟨events, .ok ()⟩

/-- Sees a token. -/
def see (t : Located) : Traced Unit := emit [.token t]

/-- Stops with a fault on a line. -/
def fail {α : Type} (fault : Fault) (line : Nat) : Traced α := ⟨[], .error ⟨fault, line⟩⟩

/-- Takes the result of an operation on values; its fault is reported on the
line. -/
def attempt {α : Type} (line : Nat) : Except Fault α → Traced α
  | .ok a => pure a
  | .error fault => fail fault line

/-- Stops at a token that the grammar does not allow. -/
def unexpected {α : Type} (t : Located) (expected : Expected) : Traced α :=
  match t.token with
  | .stray c => fail (.unexpectedCharacter c t.start.column) t.line
  | token => fail (.unexpectedToken token expected) t.line

end Traced

end PolyCalc
