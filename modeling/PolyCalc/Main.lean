import PolyCalc.CommandLine

/-!
The program: reads its arguments and the file they name, and writes the answer.
-/

open PolyCalc in
/-- Answers a call of the program. -/
def main (args : List String) : IO UInt32 := do
  match CommandLine.parse args with
  | none =>
      IO.eprintln "usage: polycalc [-f] [-p] [--] <contents>"
      return 2
  | some (options, contents) =>
      let file ←
        if options.file then
          try some <$> IO.FS.readFile contents catch _ => pure none
        else pure none
      let response := CommandLine.respond options contents file
      IO.print response.stdout
      IO.eprint response.stderr
      return response.status.toUInt32
