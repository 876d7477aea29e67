import PolyCalc.Console

/-!
The command line: what a call of the program answers.

The program takes a script, or with `-f` (`--file`) the path of a file with one.
It prints every value that the script prints, or with `-p` (`--pipe-mode`) the
last one only, then the reports of failures, and its status is 1 if the script
fails or its file cannot be read.
-/

namespace PolyCalc.CommandLine

structure Options where
  file : Bool
  pipeMode : Bool
deriving DecidableEq, Repr

/-- Adds the short flag of one letter. -/
def Options.addShort (o : Options) : Char → Option Options
  | 'f' => some { o with file := true }
  | 'p' => some { o with pipeMode := true }
  | _ => none

/-- Adds a flag, or short flags in one word. -/
def Options.add (o : Options) (flag : String) : Option Options :=
  match flag.toList with
  | '-' :: '-' :: name =>
      match String.ofList name with
      | "file" => some { o with file := true }
      | "pipe-mode" => some { o with pipeMode := true }
      | _ => none
  | '-' :: letters => letters.foldlM Options.addShort o
  | _ => none

/-- The options of some flags. -/
def Options.ofFlags (flags : List String) : Option Options :=
  flags.foldlM Options.add ⟨false, false⟩

/-- Whether an argument is a flag. -/
def isFlag (argument : String) : Bool :=
  argument.startsWith "-" && argument != "-"

/-- The options and the contents of an argument list. What follows `--` is not a
flag. -/
def parse (args : List String) : Option (Options × String) := do
  let before := args.takeWhile (· != "--")
  let after := (args.dropWhile (· != "--")).drop 1
  let options ← Options.ofFlags (before.filter isFlag)
  match before.filter (!isFlag ·) ++ after with
  | [contents] => some (options, contents)
  | _ => none

/-- What is written and the status at the end. -/
structure Response where
  stdout : String
  stderr : String
  status : Nat
deriving DecidableEq, Repr

/-- Every text on a line of its own. -/
def lines (texts : List String) : String := String.join (texts.map (· ++ "\n"))

/-- The answer to a script. -/
def answer (pipeMode : Bool) (script : String) : Response :=
  let (console, ok) := Console.empty.run script
  let values := if pipeMode then console.logs.getLast?.toList else console.logs
  { stdout := lines (values.map Value.text)
    stderr := lines console.errors
    status := if ok then 0 else 1 }

/-- The answer to a file that cannot be read. -/
def unreadable (path : String) : Response where
  stdout := ""
  stderr := lines
    [s!"Failed to read the input file '{path}'. Perhaps this file does not exist?"]
  status := 1

/-- The answer to a call. `file` is the text of the file at the path, if it can
be read. -/
def respond (o : Options) (contents : String) (file : Option String) : Response :=
  if o.file then
    match file with
    | some script => answer o.pipeMode script
    | none => unreadable contents
  else answer o.pipeMode contents

end PolyCalc.CommandLine
