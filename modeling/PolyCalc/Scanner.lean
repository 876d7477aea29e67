import PolyCalc.Fault
import PolyCalc.Number.Literal

/-!
Scanning: from text to tokens, one at a time.

Blanks and comments between tokens are skipped (`skipTrivia`). At a character
that remains, `lexeme` takes the longest token that starts there. A `Scanner`
keeps what is left of the text, the place it has reached, the last token with
its start, and the text of the last name or number. `Scanner.tokens` lists all
tokens up to the end, where the last one is always `endOfFile`.
-/

namespace PolyCalc

/-! ### One token -/

/-- Whether a name may go on with the character. -/
def continuesName (c : Char) : Bool := c.isAlphanum || c == '_'

/-- Whether the character separates tokens. -/
def isBlank (c : Char) : Bool := c == ' ' || c == '\t' || c == '\n' || c == '\r'

/-- Moves past blanks and comments. A comment runs from `#` to the end of its
line. -/
def skipTrivia (inComment : Bool) (p : Position) : List Char → Position × List Char
  | [] => (p, [])
  | c :: cs =>
      if inComment then skipTrivia (c != '\n') (p.after c) cs
      else if isBlank c then skipTrivia false (p.after c) cs
      else if c == '#' then skipTrivia true (p.after c) cs
      else (p, c :: cs)

/-- A token, its characters, and the characters that follow. -/
structure Lexeme where
  token : Token
  text : List Char
  rest : List Char
deriving DecidableEq, Repr

/-- The token of one character. -/
def symbolToken : Char → Token
  | '(' => .leftParen
  | ')' => .rightParen
  | ',' => .comma
  | '[' => .captureBegin
  | ']' => .captureEnd
  | '<' => .genericBegin
  | '>' => .genericEnd
  | ';' => .terminator
  | '^' => .caret
  | '+' => .plus
  | '-' => .minus
  | '*' => .star
  | '/' => .slash
  | '%' => .percent
  | c => .stray c

/-- The token of a word: the keyword or a name. -/
def wordToken (word : List Char) : Token :=
  if word = ['v', 'a', 'r'] then .var else .identifier (String.ofList word)

/-- Splits a number off: digits, and a point with digits if there are any. -/
def splitNumber (cs : List Char) : List Char × List Char :=
  match cs.dropWhile Char.isDigit with
  | '.' :: d :: rest =>
      if d.isDigit then
        (cs.takeWhile Char.isDigit ++ '.' :: (d :: rest).takeWhile Char.isDigit,
          (d :: rest).dropWhile Char.isDigit)
      else (cs.takeWhile Char.isDigit, '.' :: d :: rest)
  | rest => (cs.takeWhile Char.isDigit, rest)

/-- The longest token at the start of `c :: cs`. -/
def lexeme (c : Char) (cs : List Char) : Lexeme :=
  if c.isAlpha then
    let word := c :: cs.takeWhile continuesName
    ⟨wordToken word, word, cs.dropWhile continuesName⟩
  else if c.isDigit then
    let (digits, rest) := splitNumber (c :: cs)
    ⟨.number (String.ofList digits), digits, rest⟩
  else
    match c, cs with
    | ':', '=' :: rest => ⟨.assign, [':', '='], rest⟩
    | '-', '>' :: rest => ⟨.arrow, ['-', '>'], rest⟩
    | c, rest => ⟨symbolToken c, [c], rest⟩

/-! ### The scanner -/

structure Scanner where
  rest : List Char
  position : Position
  token : Token
  start : Position
  literal : String
deriving DecidableEq, Repr

namespace Scanner

/-- The scanner before a text, which has not read any token yet. -/
def ofString (source : String) : Scanner where
  rest := source.toList
  position := .start
  token := .endOfFile
  start := .start
  literal := ""

/-- Reads the next token. -/
def read (s : Scanner) : Scanner :=
  match skipTrivia false s.position s.rest with
  | (p, []) => { s with rest := [], position := p, token := .endOfFile, start := p }
  | (p, c :: cs) =>
      let l := lexeme c cs
      { rest := l.rest
        position := p.afterAll l.text
        token := l.token
        start := p
        literal := l.token.literal?.getD s.literal }

/-- The token that `read` would find. -/
def peek (s : Scanner) : Token := s.read.token

/-- The next token and the scanner after it. At the end of the text there is none. -/
def next (s : Scanner) : Option Token × Scanner :=
  (if s.read.token = .endOfFile then none else some s.read.token, s.read)

/-- Moves past one character; at the end of the text nothing changes. -/
def advance (s : Scanner) : Scanner :=
  match s.rest with
  | [] => s
  | c :: cs => { s with rest := cs, position := s.position.after c }

/-- Whether the text is used up. -/
def atEnd (s : Scanner) : Bool := s.rest.isEmpty

/-- The next character, or the character 0 at the end of the text. -/
def current (s : Scanner) : Char := s.rest.headD '\x00'

/-- The last token with its start. -/
def located (s : Scanner) : Located := ⟨s.token, s.start⟩

/-- The line of the last token. -/
def line (s : Scanner) : Nat := s.start.line

/-- The number that the last name or number stands for. -/
def number (s : Scanner) : Except Failure Float :=
  match Number.read? s.literal with
  | some x => .ok x
  | none => .error ⟨.malformedNumber s.literal, s.line⟩

/-! ### All tokens -/

theorem length_skipTrivia_le (inComment : Bool) (p : Position) (cs : List Char) :
    (skipTrivia inComment p cs).2.length ≤ cs.length := by
  induction cs generalizing inComment p with
  | nil => simp [skipTrivia]
  | cons c cs ih =>
      simp only [skipTrivia]
      split
      · exact Nat.le_succ_of_le (ih ..)
      · split
        · exact Nat.le_succ_of_le (ih ..)
        · split
          · exact Nat.le_succ_of_le (ih ..)
          · exact Nat.le_refl _

theorem length_dropWhile_le (p : Char → Bool) (cs : List Char) :
    (cs.dropWhile p).length ≤ cs.length :=
  (List.dropWhile_suffix p).length_le

theorem length_splitNumber_lt {c : Char} (digit : c.isDigit = true) (cs : List Char) :
    (splitNumber (c :: cs)).2.length < (c :: cs).length := by
  have shorter : ((c :: cs).dropWhile Char.isDigit).length < (c :: cs).length := by
    rw [List.dropWhile_cons_of_pos digit]
    exact Nat.lt_succ_of_le (length_dropWhile_le ..)
  unfold splitNumber
  split
  · rename_i d rest remains
    rw [remains] at shorter
    split
    · have := length_dropWhile_le Char.isDigit (d :: rest)
      simp at shorter this ⊢
      omega
    · exact shorter
  · exact shorter

theorem length_lexeme_rest_lt (c : Char) (cs : List Char) :
    (lexeme c cs).rest.length < (c :: cs).length := by
  unfold lexeme
  split
  · exact Nat.lt_succ_of_le (length_dropWhile_le ..)
  · split
    · rename_i digit
      exact length_splitNumber_lt digit cs
    · split
      · simp only [List.length_cons]
        omega
      · simp only [List.length_cons]
        omega
      · simp only [List.length_cons]
        omega

theorem length_read_rest_lt {s : Scanner} (more : s.read.token ≠ .endOfFile) :
    s.read.rest.length < s.rest.length := by
  have skipped := length_skipTrivia_le false s.position s.rest
  unfold read at more ⊢
  split at more
  · exact absurd rfl more
  · rename_i p c cs trivia
    rw [trivia] at skipped
    exact Nat.lt_of_lt_of_le (length_lexeme_rest_lt c cs) skipped

/-- The tokens from here to the end of the text, which is the last of them. -/
def tokens (s : Scanner) : List Located :=
  if s.read.token = .endOfFile then [s.read.located]
  else s.read.located :: s.read.tokens
termination_by s.rest.length
decreasing_by exact length_read_rest_lt (by assumption)

end Scanner

/-- The tokens of a text. -/
def scan (source : String) : List Located := (Scanner.ofString source).tokens

end PolyCalc
