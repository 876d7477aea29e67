import PolyCalc.Log

/-!
Consoles and runs.

A console collects the printed values and the reports of failures of the runs
on it. A run evaluates a program in a fresh environment; it only ever appends,
and a failed run appends exactly one report.
-/

namespace PolyCalc

/-- The text that reports a failure: its kind and its message. -/
def Failure.report (f : Failure) : String := s!"{f.kind.text}: {f.message}"

/-- Evaluates a program in the environment every program starts with. -/
def interpret (source : String) : Outcome := program .preloaded source

structure Console where
  logs : List (Value Float)
  errors : List String

namespace Console

def empty : Console := ⟨[], []⟩

/-- Appends printed values. -/
def log (c : Console) (values : List (Value Float)) : Console := { c with logs := c.logs ++ values }

/-- Appends a report. -/
def error (c : Console) (message : String) : Console :=
  { c with errors := c.errors ++ [message] }

/-- The console after a run, and whether the run succeeded. -/
def run (c : Console) (source : String) : Console × Bool :=
  let outcome := interpret source
  let c := c.log outcome.printed
  match outcome.result with
  | .ok () => (c, true)
  | .error failure => (c.error failure.report, false)

end Console

/-- The log records of a run. -/
def runRecords (source : String) : List Log.Record :=
  let outcome := interpret source
  let ending : List Log.Record :=
    match outcome.result with
    | .ok () => []
    | .error failure =>
        [⟨.warn, .program, s!"run stopped on line {failure.line}"⟩,
          ⟨.warn, .console, failure.report⟩]
  records outcome.journal ++ ending

end PolyCalc
