import PolyCalc.Eval.Run
import PolyCalc.Log.Unprintable

/-!
The log of a run.

Every event of a journal has log records, most of them one. A record has a
level, the part of the program it comes from, and a message. `Record.visibleAt`
says which records are kept at a level.
-/

namespace PolyCalc

namespace Log

/-- How much a record matters, from the most to the least. -/
inductive Level where
  | warn
  | info
  | debug
  | trace
deriving DecidableEq, Repr

def Level.rank : Level → Nat
  | warn => 0
  | info => 1
  | debug => 2
  | trace => 3

/-- The part of the program that a record comes from. -/
inductive Origin where
  | program
  | scanner
  | console
  | statements
  | expressions
  | lambdas
deriving DecidableEq, Repr

structure Record where
  level : Level
  origin : Origin
  message : String
deriving DecidableEq, Repr

/-- Whether the record is kept when records down to `level` are. -/
def Record.visibleAt (level : Level) (r : Record) : Bool := r.level.rank ≤ level.rank

/-! ### Tokens in messages -/

/-- A code point in hexadecimal. -/
def codePoint (c : Char) : String :=
  "\\u\x7b" ++ String.ofList (Nat.toDigits 16 c.toNat) ++ "\x7d"

/-- A character between quotes, with escapes for what could not be read. -/
def quoted (c : Char) : String :=
  let inner := match c with
    | '\x00' => "\\0"
    | '\t' => "\\t"
    | '\r' => "\\r"
    | '\n' => "\\n"
    | '\\' => "\\\\"
    | '\'' => "\\'"
    | c => if isUnprintable c then codePoint c else c.toString
  "'" ++ inner ++ "'"

/-- A token by its kind and its text, if that is not the same for all tokens of
the kind. -/
def tokenText (t : Token) : String :=
  match t with
  | .identifier text | .number text => t.kindName ++ "(\"" ++ text ++ "\")"
  | .stray c => t.kindName ++ "(" ++ quoted c ++ ")"
  | t => t.kindName

/-- The records of a token that is seen. The end of the text has none. -/
def tokenRecords (t : Located) : List Record :=
  let place := s!"{t.start.line}:{t.start.column}"
  let seen : Record := ⟨.trace, .scanner, s!"token {tokenText t.token} at {place}"⟩
  match t.token with
  | .endOfFile => []
  | .stray c =>
      [⟨.debug, .scanner, s!"lexical error: unexpected '{c}' at {place}"⟩,
        ⟨.warn, .statements, s!"unexpected character '{c}' at {place}"⟩, seen]
  | _ => [seen]

end Log

open Log

/-- The records of an event. -/
def Event.records : Event → List Record
  | .token t => tokenRecords t
  | .statement line => [⟨.debug, .statements, s!"statement at line {line}"⟩]
  | .declared name value => [⟨.debug, .statements, s!"var {name} := {value.text}"⟩]
  | .assigned name value => [⟨.debug, .expressions, s!"{name} := {value.text}"⟩]
  | .called name arguments =>
      [⟨.debug, .expressions, s!"call {name} with {arguments} argument(s)"⟩]
  | .printed value => [⟨.debug, .console, s!"log: {value.text}"⟩]
  | .entered _ => []
  | .built captures line p =>
      let names := String.intercalate ", " captures
      [⟨.debug, .lambdas, s!"lambda [{names}] at line {line} is {p.text}"⟩]

/-- The records of a journal. -/
def records (journal : List Event) : List Record := journal.flatMap Event.records

end PolyCalc
