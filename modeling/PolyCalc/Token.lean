import PolyCalc.Operator

/-!
Tokens and where they stand.

Names and numbers carry their text. A character that starts no token is a token
of its own (`stray`), so that scanning never fails and the evaluator decides
what to report.
-/

namespace PolyCalc

inductive Token where
  | var
  | assign
  | leftParen
  | rightParen
  | comma
  | captureBegin
  | captureEnd
  | genericBegin
  | genericEnd
  | terminator
  | arrow
  | caret
  | plus
  | minus
  | star
  | slash
  | percent
  | identifier (name : String)
  | number (literal : String)
  | endOfFile
  | stray (c : Char)
deriving DecidableEq, Repr

namespace Token

/-- The token as it is written. -/
def text : Token → String
  | var => "var"
  | assign => ":="
  | leftParen => "("
  | rightParen => ")"
  | comma => ","
  | captureBegin => "["
  | captureEnd => "]"
  | genericBegin => "<"
  | genericEnd => ">"
  | terminator => ";"
  | arrow => "->"
  | caret => "^"
  | plus => "+"
  | minus => "-"
  | star => "*"
  | slash => "/"
  | percent => "%"
  | identifier name => name
  | number literal => literal
  | endOfFile => "end of file"
  | stray c => c.toString

/-- The name of the token's kind in the log. -/
def kindName : Token → String
  | var => "Var"
  | assign => "Assign"
  | leftParen => "LeftParen"
  | rightParen => "RightParen"
  | comma => "Comma"
  | captureBegin => "CaptureBegin"
  | captureEnd => "CaptureEnd"
  | genericBegin => "GenericBegin"
  | genericEnd => "GenericEnd"
  | terminator => "Terminator"
  | arrow => "Arrow"
  | caret => "Caret"
  | plus => "Plus"
  | minus => "Minus"
  | star => "Star"
  | slash => "Slash"
  | percent => "Percent"
  | identifier _ => "Identifier"
  | number _ => "Number"
  | endOfFile => "EndOfFile"
  | stray _ => "Error"

/-- The text of a name or a number. -/
def literal? : Token → Option String
  | identifier name => some name
  | number literal => some literal
  | _ => none

/-- The operator between the operands of a product. -/
def productOperator? : Token → Option Operator
  | star => some .multiply
  | slash => some .divide
  | percent => some .modulo
  | _ => none

/-- The operator between the terms of a sum. -/
def sumOperator? : Token → Option Operator
  | plus => some .add
  | minus => some .subtract
  | _ => none

/-- The operator that the token stands for. -/
def operator? (t : Token) : Option Operator := t.productOperator? <|> t.sumOperator?

/-- Whether a name before the token is called. -/
def opensCall : Token → Bool
  | leftParen | genericBegin => true
  | _ => false

end Token

/-! ### Positions -/

/-- A place in a text: the offset counts bytes from 0, lines and columns count
from 1, and columns count characters. -/
structure Position where
  offset : Nat
  line : Nat
  column : Nat
deriving DecidableEq, Repr

namespace Position

def start : Position := ⟨0, 1, 1⟩

/-- The place after a character. -/
def after (p : Position) (c : Char) : Position :=
  if c = '\n' then ⟨p.offset + c.utf8Size, p.line + 1, 1⟩
  else ⟨p.offset + c.utf8Size, p.line, p.column + 1⟩

/-- The place after some characters. -/
def afterAll (p : Position) (cs : List Char) : Position := cs.foldl after p

end Position

/-- A token and where it starts. -/
structure Located where
  token : Token
  start : Position
deriving DecidableEq, Repr

/-- The line on which the token starts. -/
def Located.line (t : Located) : Nat := t.start.line

end PolyCalc
