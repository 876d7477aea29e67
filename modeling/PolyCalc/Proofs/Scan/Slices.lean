import PolyCalc.Proofs.Scan.Places

/-!
Scanning by slices of the text.

A `Scanner` holds the characters that are left of its text. A `Cursor` holds one
character and a place instead, and slices the whole text at the byte offset of its
place for everything else it wants to see: for the next character when it moves on, and
for the characters of a token. A slice misses if it would cut a character or begin
behind the text.

Main statement: no slice ever misses, and the cursor finds what the scanner finds,
whatever is asked of the two (`Cursor.serveAll_eq`).
-/

namespace PolyCalc

/-- The characters of the text from a byte offset on. -/
def sliceFrom (source : String) (offset : Nat) : Except Fault (List Char) :=
  if String.Pos.Raw.isValid source ⟨offset⟩ then
    .ok (between source offset source.utf8ByteSize).toList
  else .error .outOfRange

/-- A slice after some characters of the text is the others. -/
theorem sliceFrom_eq {source : String} {before rest : List Char}
    (split : source.toList = before ++ rest) :
    sliceFrom source (String.utf8Len before) = .ok rest := by
  have boundary : String.Pos.Raw.isValid source ⟨String.utf8Len before⟩ = true := by
    rw [String.Pos.Raw.isValid_eq_true_iff, ← Position.offset_start_afterAll]
    exact (Position.on_afterAll split).boundary
  have size : source.utf8ByteSize = String.utf8Len (before ++ rest) := by
    rw [← String.utf8Len_toList, split]
  have whole : source.toList = before ++ rest ++ [] := by
    rw [split, List.append_nil]
  rw [sliceFrom, if_pos boundary, size, between_eq whole, String.toList_ofList]

/-- What is done with a character between tokens: whether a comment goes on after it, or
nothing if a token starts with it. -/
def triviaAfter (inComment : Bool) (c : Char) : Option Bool :=
  if inComment then some (c != '\n')
  else if isBlank c then some false
  else if c == '#' then some true
  else none

theorem skipTrivia_of_triviaAfter {inComment b : Bool} {c : Char}
    (passed : triviaAfter inComment c = some b) (p : Position) (cs : List Char) :
    skipTrivia inComment p (c :: cs) = skipTrivia b (p.after c) cs := by
  unfold triviaAfter at passed
  rw [skipTrivia]
  split at passed
  · cases passed
    rw [if_pos ‹_›]
  rw [if_neg ‹_›]
  split at passed
  · cases passed
    rw [if_pos ‹_›]
  rw [if_neg ‹_›]
  split at passed
  · cases passed
    rw [if_pos ‹_›]
  · cases passed

theorem skipTrivia_of_token {inComment : Bool} {c : Char}
    (starts : triviaAfter inComment c = none) (p : Position) (cs : List Char) :
    skipTrivia inComment p (c :: cs) = (p, c :: cs) := by
  unfold triviaAfter at starts
  rw [skipTrivia]
  split at starts
  · cases starts
  rw [if_neg ‹_›]
  split at starts
  · cases starts
  rw [if_neg ‹_›]
  split at starts
  · cases starts
  · rw [if_neg ‹_›]

/-! ### Cursors -/

structure Cursor where
  current : Char
  position : Position
  token : Token
  start : Position
  literal : String
deriving DecidableEq, Repr

namespace Cursor

/-- The cursor before a text. -/
def ofString (source : String) : Cursor where
  current := source.toList.headD '\x00'
  position := .start
  token := .endOfFile
  start := .start
  literal := ""

/-- The cursor at another place, with the given characters from there on. -/
def jump (c : Cursor) (p : Position) (rest : List Char) : Cursor :=
  { c with current := rest.headD '\x00', position := p }

section

variable (source : String)

def atEnd (c : Cursor) : Bool := source.utf8ByteSize ≤ c.position.offset

/-- Moves past one character and looks at the next one. -/
def advance (c : Cursor) : Except Fault Cursor :=
  if c.atEnd source then .ok { c with current := '\x00' }
  else do
    let rest ← sliceFrom source (c.position.after c.current).offset
    return c.jump (c.position.after c.current) rest

theorem offset_advance_lt {c c' : Cursor} (more : ¬ c.atEnd source = true)
    (moved : c.advance source = .ok c') : c.position.offset < c'.position.offset := by
  rw [advance, if_neg more] at moved
  cases sliced : sliceFrom source (c.position.after c.current).offset with
  | error fault =>
      rw [sliced] at moved
      cases moved
  | ok rest =>
      rw [sliced] at moved
      cases moved
      have passed := Position.offset_afterAll c.position [c.current]
      rw [Position.afterAll_cons, Position.afterAll_nil, String.utf8Len_cons] at passed
      have positive := c.current.utf8Size_pos
      show c.position.offset < (c.position.after c.current).offset
      omega

/-- Moves past blanks and comments. -/
def skipTrivia (inComment : Bool) (c : Cursor) : Except Fault Cursor :=
  if _more : c.atEnd source = true then .ok c
  else
    match triviaAfter inComment c.current with
    | none => .ok c
    | some b =>
        match _moved : c.advance source with
        | .ok c' => skipTrivia b c'
        | .error fault => .error fault
termination_by source.utf8ByteSize - c.position.offset
decreasing_by
  have further := offset_advance_lt source (by assumption) (by assumption)
  have inside : ¬ source.utf8ByteSize ≤ c.position.offset := by
    simpa [atEnd] using _more
  omega

/-- Moves past as many characters as there are in the text of a token. -/
def advanceAll (c : Cursor) (text : List Char) : Except Fault Cursor :=
  text.foldlM (fun c _ => c.advance source) c

/-- Moves past a token. -/
def accept (c : Cursor) (l : Lexeme) : Except Fault Cursor := do
  let moved ← c.advanceAll source l.text
  return { moved with
    token := l.token
    start := c.position
    literal := l.token.literal?.getD c.literal }

/-- Reads the next token, from a slice of the text at the place where it starts. -/
def read (c : Cursor) : Except Fault Cursor := do
  let c ← c.skipTrivia source false
  if c.atEnd source then return { c with token := .endOfFile, start := c.position }
  else
    match ← sliceFrom source c.position.offset with
    | [] => return { c with token := .stray c.current, start := c.position }
    | d :: ds => c.accept source (lexeme d ds)

/-- The cursor after a request. Looking ahead reads a token and goes back. -/
def serve (c : Cursor) : Scanner.Request → Except Fault Cursor
  | .read | .next => c.read source
  | .peek => do
      let _ ← c.read source
      return c
  | .advance => c.advance source

/-- The cursor after some requests, up to the first slice that misses. -/
def serveAll (c : Cursor) (requests : List Scanner.Request) : Except Fault Cursor :=
  requests.foldlM (serve source) c

end

end Cursor

/-- The cursor at the place of a scanner. -/
def Scanner.cursor (s : Scanner) : Cursor where
  current := s.current
  position := s.position
  token := s.token
  start := s.start
  literal := s.literal

namespace Cursor

/-! ### Slices that do not miss -/

/-- The cursor stands in front of the given characters, the last ones of the text. -/
structure At (source : String) (rest : List Char) (c : Cursor) : Prop where
  place : ∃ before, source.toList = before ++ rest ∧ c.position = Position.start.afterAll before
  current : c.current = rest.headD '\x00'

variable {source : String} {c : Cursor} {rest : List Char}

theorem At.atEnd_iff (here : c.At source rest) : c.atEnd source = true ↔ rest = [] := by
  obtain ⟨before, split, place⟩ := here.place
  have size : source.utf8ByteSize = c.position.offset + String.utf8Len rest := by
    rw [← String.utf8Len_toList, split, String.utf8Len_append, place,
      Position.offset_start_afterAll]
  rw [atEnd, decide_eq_true_iff, ← String.utf8Len_eq_zero]
  omega

theorem At.slice (here : c.At source rest) : sliceFrom source c.position.offset = .ok rest := by
  obtain ⟨before, split, place⟩ := here.place
  rw [place, Position.offset_start_afterAll]
  exact sliceFrom_eq split

/-- Behind the first of the characters, the cursor stands in front of the others. -/
theorem At.behind {d : Char} (here : c.At source (d :: rest)) :
    (c.jump (c.position.after d) rest).At source rest := by
  obtain ⟨before, split, place⟩ := here.place
  refine ⟨⟨before ++ [d], ?_, ?_⟩, rfl⟩
  · rw [split, List.append_assoc]
    rfl
  · show c.position.after d = _
    rw [place, Position.afterAll_append]
    rfl

theorem At.advance {d : Char} (here : c.At source (d :: rest)) :
    c.advance source = .ok (c.jump (c.position.after d) rest) := by
  have more : ¬ c.atEnd source = true := fun ended => List.cons_ne_nil _ _ (here.atEnd_iff.mp ended)
  have same : c.current = d := here.current
  have sliced : sliceFrom source (c.position.after d).offset = .ok rest := here.behind.slice
  rw [Cursor.advance, if_neg more, same, sliced]
  rfl

/-- Blanks and comments are skipped as from a list of characters, which the induction is
on. -/
theorem At.skipTrivia (here : c.At source rest) (inComment : Bool) :
    c.skipTrivia source inComment =
        .ok (c.jump (PolyCalc.skipTrivia inComment c.position rest).1
          (PolyCalc.skipTrivia inComment c.position rest).2) ∧
      (c.jump (PolyCalc.skipTrivia inComment c.position rest).1
        (PolyCalc.skipTrivia inComment c.position rest).2).At source
          (PolyCalc.skipTrivia inComment c.position rest).2 := by
  have stay : c = c.jump c.position rest := by
    rw [jump, ← here.current]
  induction rest generalizing c inComment with
  | nil =>
      rw [Cursor.skipTrivia, dif_pos (here.atEnd_iff.mpr rfl)]
      exact ⟨congrArg _ stay, stay ▸ here⟩
  | cons d rest ih =>
      have more : ¬ c.atEnd source = true :=
        fun ended => List.cons_ne_nil _ _ (here.atEnd_iff.mp ended)
      have same : c.current = d := here.current
      rw [Cursor.skipTrivia, dif_neg more, same]
      cases passed : triviaAfter inComment d with
      | none =>
          rw [skipTrivia_of_token passed]
          exact ⟨congrArg _ stay, stay ▸ here⟩
      | some b =>
          rw [skipTrivia_of_triviaAfter passed]
          dsimp only
          split
          · rename_i c' moved
            rw [here.advance] at moved
            cases moved
            exact ih here.behind b rfl
          · rename_i fault missed
            rw [here.advance] at missed
            cases missed

/-- The characters of a token are passed one by one. -/
theorem At.advanceAll {text : List Char} (here : c.At source (text ++ rest)) :
    c.advanceAll source text = .ok (c.jump (c.position.afterAll text) rest) := by
  induction text generalizing c with
  | nil =>
      have stay : c = c.jump c.position rest := by
        have same : c.current = rest.headD '\x00' := here.current
        rw [jump, ← same]
      exact congrArg _ stay
  | cons d text ih =>
      rw [Cursor.advanceAll, List.foldlM_cons, At.advance here]
      exact ih (At.behind here)

end Cursor

/-! ### Cursors and scanners -/

namespace Scanner

variable {source : String} {s : Scanner} {before passed : List Char}

theorem Splits.at (splits : s.Splits source before passed) : s.cursor.At source s.rest :=
  ⟨⟨before ++ passed, splits.text, splits.position⟩, rfl⟩

/-- A cursor at the place of a scanner reads the same token. -/
theorem Splits.cursor_read (splits : s.Splits source before passed) :
    s.cursor.read source = .ok s.read.cursor := by
  obtain ⟨skipped, here⟩ := splits.at.skipTrivia false
  have place : s.cursor.position = s.position := rfl
  rw [Cursor.read, skipped]
  rw [place] at here ⊢
  rcases trivia : PolyCalc.skipTrivia false s.position s.rest with ⟨p, _ | ⟨d, ds⟩⟩
  · rw [trivia] at here
    show (if _ then _ else _) = _
    rw [if_pos (here.atEnd_iff.mpr rfl), Scanner.read, trivia]
    rfl
  · rw [trivia] at here
    have more : ¬ (s.cursor.jump p (d :: ds)).atEnd source = true :=
      fun ended => List.cons_ne_nil _ _ (here.atEnd_iff.mp ended)
    have token : (s.cursor.jump p (d :: ds)).At source ((lexeme d ds).text ++ (lexeme d ds).rest) :=
      (lexeme_text_append d ds).symm ▸ here
    show (if _ then _ else _) = _
    rw [if_neg more, here.slice]
    show (s.cursor.jump p (d :: ds)).accept source (lexeme d ds) = _
    rw [Cursor.accept, token.advanceAll, Scanner.read, trivia]
    rfl

theorem Splits.cursor_advance (splits : s.Splits source before passed) :
    s.cursor.advance source = .ok s.advance.cursor := by
  have here := splits.at
  unfold Scanner.advance
  split
  · rename_i ended
    rw [ended] at here
    have current : s.cursor.current = '\x00' := here.current
    rw [Cursor.advance, if_pos (here.atEnd_iff.mpr rfl), ← current]
  · rename_i d ds more
    rw [more] at here
    exact here.advance

theorem Splits.cursor_serve (splits : s.Splits source before passed) (request : Request) :
    s.cursor.serve source request = .ok (s.serve request).cursor := by
  cases request with
  | read => exact splits.cursor_read
  | peek =>
      rw [Cursor.serve, splits.cursor_read]
      rfl
  | advance => exact splits.cursor_advance
  | next => exact splits.cursor_read

end Scanner

/-- Whatever is asked of a new cursor, no slice misses, and it stands where a scanner
does of which the same was asked. -/
theorem Cursor.serveAll_eq (source : String) (requests : List Scanner.Request) :
    (ofString source).serveAll source requests =
      .ok ((Scanner.ofString source).serveAll requests).cursor := by
  have general (s : Scanner) (before passed : List Char) (splits : s.Splits source before passed) :
      s.cursor.serveAll source requests = .ok (s.serveAll requests).cursor := by
    induction requests generalizing s before passed with
    | nil => rfl
    | cons request requests ih =>
        obtain ⟨gap, text, moves⟩ := s.serve_moves request
        obtain ⟨before, passed, splits'⟩ := moves.splits splits
        rw [serveAll, List.foldlM_cons, splits.cursor_serve request]
        exact ih _ before passed splits'
  exact general _ [] [] (Scanner.splits_ofString source)

end PolyCalc
