import Mathlib.Data.List.DropRight
import Mathlib.Data.String.Basic
import PolyCalc.Proofs.Scan

/-!
Where the scanner stands.

A place counts bytes, lines and columns one character at a time. `Position.On`
says what it should be, from the text and the byte offset alone: the line counts
the newlines before the offset, and the column the characters after the last of
them. A scanner `Fits` its text if its own place and the start of its last token
are such places, and if the character at the caret is the one that stands there.

Main statement: whatever is asked of a new scanner, and in whatever order, it
fits its text afterwards and never moves back (`Scanner.serveAll_fits`).
-/

namespace PolyCalc

/-! ### Places in a text -/

/-- The text between two byte offsets. -/
def between (source : String) (start stop : Nat) : String :=
  String.Pos.Raw.extract source ⟨start⟩ ⟨stop⟩

theorem between_eq {source : String} {before text after : List Char}
    (split : source.toList = before ++ text ++ after) :
    between source (String.utf8Len before) (String.utf8Len (before ++ text)) =
      String.ofList text := by
  rw [between, ← String.ofList_toList (s := source), split, String.utf8Len_append]
  exact String.extract_of_valid before text after

namespace Position

/-- The place is on a boundary of two characters, and its line and column are those
of its offset. -/
structure On (source : String) (p : Position) : Prop where
  boundary : String.Pos.Raw.IsValid source ⟨p.offset⟩
  line : p.line = 1 + (between source 0 p.offset).toList.count '\n'
  column : p.column = 1 + ((between source 0 p.offset).toList.rtakeWhile (· != '\n')).length

theorem offset_afterAll (p : Position) (cs : List Char) :
    (p.afterAll cs).offset = p.offset + String.utf8Len cs := by
  induction cs generalizing p with
  | nil => rfl
  | cons c cs ih =>
      have moved : (p.after c).offset = p.offset + c.utf8Size := by
        unfold after
        split <;> rfl
      rw [afterAll_cons, ih, moved, String.utf8Len_cons]
      omega

/-- Columns count from the last newline on, which is why the induction is on the last
character. -/
theorem column_start_afterAll (cs : List Char) :
    (start.afterAll cs).column = 1 + (cs.rtakeWhile (· != '\n')).length := by
  induction cs using List.reverseRecOn with
  | nil => rfl
  | append_singleton cs c ih =>
      rw [afterAll_append, List.rtakeWhile_concat]
      by_cases newline : c = '\n'
      · subst newline
        rfl
      · have other : (c != '\n') = true := bne_iff_ne.mpr newline
        simp only [afterAll_cons, afterAll_nil, after, newline, if_false, other, if_true, ih,
          List.length_append, List.length_singleton]
        omega

theorem offset_start_afterAll (cs : List Char) :
    (start.afterAll cs).offset = String.utf8Len cs := by
  rw [offset_afterAll]
  exact Nat.zero_add _

/-- The place after the first characters of a text. -/
theorem on_afterAll {source : String} {before after : List Char}
    (split : source.toList = before ++ after) : (start.afterAll before).On source := by
  have consumed : between source 0 (start.afterAll before).offset = String.ofList before := by
    rw [offset_start_afterAll]
    exact @between_eq source [] before after split
  constructor
  · refine String.Pos.Raw.isValid_iff_exists_append.mpr
      ⟨String.ofList before, String.ofList after, ?_, ?_⟩
    · rw [← String.ofList_append, ← split, String.ofList_toList]
    · rw [offset_start_afterAll, String.rawEndPos_ofList]
  · rw [consumed, String.toList_ofList, line_afterAll]
    rfl
  · rw [consumed, String.toList_ofList, column_start_afterAll]

end Position

/-! ### Scanners in a text -/

namespace Scanner

/-- The text is what was before the last token, what was passed since, and the rest. -/
structure Splits (source : String) (s : Scanner) (before passed : List Char) : Prop where
  text : source.toList = before ++ passed ++ s.rest
  start : s.start = Position.start.afterAll before
  position : s.position = Position.start.afterAll (before ++ passed)

/-- What the scanner knows about its place is true of the text. The offset that
`current` belongs to is past the last character only at the end of the text.
There `current` is U+0000, which may also be a character of the text: that the
text is used up is for `atEnd` to say, and `current` alone does not show it. -/
structure Fits (source : String) (s : Scanner) : Prop where
  position : s.position.On source
  offset_le : s.position.offset ≤ source.utf8ByteSize
  atEnd : s.atEnd = true ↔ s.position.offset = source.utf8ByteSize
  current : s.position.offset ≠ source.utf8ByteSize →
    String.Pos.Raw.get? source ⟨s.position.offset⟩ = some s.current
  sentinel : s.position.offset = source.utf8ByteSize → s.current = '\x00'
  start : s.start.On source
  start_le : s.start.offset ≤ s.position.offset

variable {source : String} {s : Scanner} {before passed : List Char}

theorem Splits.offset (splits : s.Splits source before passed) :
    s.position.offset = String.utf8Len (before ++ passed) := by
  rw [splits.position, Position.offset_start_afterAll]

theorem Splits.start_offset (splits : s.Splits source before passed) :
    s.start.offset = String.utf8Len before := by
  rw [splits.start, Position.offset_start_afterAll]

/-- The bytes of the text are those that were passed and those of the rest. -/
theorem Splits.size (splits : s.Splits source before passed) :
    source.utf8ByteSize = s.position.offset + String.utf8Len s.rest := by
  rw [← String.utf8Len_toList, splits.text, String.utf8Len_append, splits.offset]

/-- Every character has a byte, so the rest is empty just when no bytes are left. -/
theorem Splits.rest_eq_nil (splits : s.Splits source before passed) :
    s.rest = [] ↔ s.position.offset = source.utf8ByteSize := by
  rw [splits.size]
  constructor
  · intro ended
    rw [ended]
    rfl
  · intro same
    rw [← String.utf8Len_eq_zero]
    omega

/-- A token that starts after a gap, with the caret behind it. -/
theorem Splits.jump {s' : Scanner} {gap text : List Char} (splits : s.Splits source before passed)
    (rest : s.rest = gap ++ text ++ s'.rest) (start : s'.start = s.position.afterAll gap)
    (position : s'.position = s.position.afterAll (gap ++ text)) :
    s'.Splits source (before ++ passed ++ gap) text := by
  constructor
  · rw [splits.text, rest]
    simp only [List.append_assoc]
  · rw [start, splits.position, ← Position.afterAll_append]
  · rw [position, splits.position, ← Position.afterAll_append, List.append_assoc, List.append_assoc,
      List.append_assoc]

theorem Splits.fits (splits : s.Splits source before passed) : s.Fits source := by
  have size := splits.size
  constructor
  · exact splits.position ▸ Position.on_afterAll splits.text
  · omega
  · rw [← splits.rest_eq_nil]
    exact List.isEmpty_iff
  · intro inside
    obtain ⟨c, rest, more⟩ := List.exists_cons_of_ne_nil (mt splits.rest_eq_nil.mp inside)
    have here := String.get?_of_valid (before ++ passed) s.rest
    rw [← splits.text, String.ofList_toList, ← splits.offset] at here
    rw [here, current, more]
    rfl
  · intro ended
    rw [current, splits.rest_eq_nil.mpr ended]
    rfl
  · exact splits.start ▸ Position.on_afterAll (splits.text.trans (List.append_assoc ..))
  · rw [splits.offset, splits.start_offset, String.utf8Len_append]
    omega

/-! ### Reading -/

/-- A read skips a gap. Then the text has ended, or there is a lexeme. -/
theorem read_cases (s : Scanner) :
    ∃ gap rest, s.rest = gap ++ rest ∧
      skipTrivia false s.position s.rest = (s.position.afterAll gap, rest) ∧
      s.read.start = s.position.afterAll gap ∧
      (rest = [] ∧ s.read.token = .endOfFile ∧ s.read.rest = [] ∧
          s.read.position = s.position.afterAll gap ∨
        ∃ c cs, rest = c :: cs ∧ s.read.token = (lexeme c cs).token ∧
          s.read.rest = (lexeme c cs).rest ∧
          s.read.position = (s.position.afterAll gap).afterAll (lexeme c cs).text ∧
          s.read.literal = (lexeme c cs).token.literal?.getD s.literal) := by
  obtain ⟨gap, whole, place⟩ := skipTrivia_split false s.position s.rest
  rcases skipped : skipTrivia false s.position s.rest with ⟨q, _ | ⟨c, cs⟩⟩
  · rw [skipped] at whole place
    obtain rfl : q = s.position.afterAll gap := place
    exact ⟨gap, [], whole, rfl, by simp [read, skipped]⟩
  · rw [skipped] at whole place
    obtain rfl : q = s.position.afterAll gap := place
    exact ⟨gap, c :: cs, whole, rfl, by simp [read, skipped]⟩

/-! ### What a scanner is asked for -/

/-- What can be asked of a scanner. -/
inductive Request where
  | read
  | peek
  | advance
  | next
deriving DecidableEq, Repr

/-- The scanner after a request. Looking ahead leaves it as it is. -/
def serve (s : Scanner) : Request → Scanner
  | .read => s.read
  | .peek => s
  | .advance => s.advance
  | .next => s.next.2

/-- The scanner after some requests. -/
def serveAll (s : Scanner) (requests : List Request) : Scanner := requests.foldl serve s

/-- All that a request does to the places of a scanner: the caret passes some characters
of the rest, and the last token starts where it did or after the first of them. -/
structure Moves (s s' : Scanner) (gap text : List Char) : Prop where
  rest : s.rest = gap ++ text ++ s'.rest
  position : s'.position = s.position.afterAll (gap ++ text)
  start : s'.start = s.start ∨ s'.start = s.position.afterAll gap

theorem read_moves (s : Scanner) : ∃ gap text, s.Moves s.read gap text := by
  obtain ⟨gap, rest, whole, -, start, ended | lexed⟩ := s.read_cases
  · obtain ⟨rfl, -, rest, position⟩ := ended
    refine ⟨gap, [], ?_, ?_, .inr start⟩
    · rw [whole, rest, List.append_nil, List.append_nil]
    · rw [position, List.append_nil]
  · obtain ⟨c, cs, rfl, -, rest, position, -⟩ := lexed
    refine ⟨gap, (lexeme c cs).text, ?_, ?_, .inr start⟩
    · rw [whole, rest, List.append_assoc, lexeme_text_append]
    · rw [position, Position.afterAll_append]

theorem advance_moves (s : Scanner) : ∃ gap text, s.Moves s.advance gap text := by
  unfold advance
  split
  · exact ⟨[], [], rfl, rfl, .inl rfl⟩
  · rename_i c cs more
    exact ⟨[c], [], more, rfl, .inl rfl⟩

theorem serve_moves (s : Scanner) (request : Request) :
    ∃ gap text, s.Moves (s.serve request) gap text := by
  cases request with
  | read => exact s.read_moves
  | peek => exact ⟨[], [], rfl, rfl, .inl rfl⟩
  | advance => exact s.advance_moves
  | next => exact s.read_moves

/-- No request moves the caret back. -/
theorem Moves.offset_le {s' : Scanner} {gap text : List Char} (moves : s.Moves s' gap text) :
    s.position.offset ≤ s'.position.offset := by
  rw [moves.position, Position.offset_afterAll]
  exact Nat.le_add_right ..

/-- A request splits the text anew. -/
theorem Moves.splits {s' : Scanner} {gap text : List Char} (moves : s.Moves s' gap text)
    (splits : s.Splits source before passed) :
    ∃ before passed, s'.Splits source before passed := by
  rcases moves.start with same | new
  · refine ⟨before, passed ++ (gap ++ text), ?_, same.trans splits.start, ?_⟩
    · rw [splits.text, moves.rest]
      simp only [List.append_assoc]
    · rw [moves.position, splits.position, ← Position.afterAll_append, List.append_assoc]
  · exact ⟨_, _, splits.jump moves.rest new moves.position⟩

/-! ### Any requests -/

theorem splits_ofString (source : String) : (ofString source).Splits source [] [] :=
  ⟨rfl, rfl, rfl⟩

theorem serveAll_splits (splits : s.Splits source before passed) (requests : List Request) :
    ∃ before passed, (s.serveAll requests).Splits source before passed := by
  induction requests generalizing s before passed with
  | nil => exact ⟨before, passed, splits⟩
  | cons request requests ih =>
      obtain ⟨gap, text, moves⟩ := s.serve_moves request
      obtain ⟨before, passed, splits⟩ := moves.splits splits
      exact ih splits

theorem serveAll_offset_le (s : Scanner) (requests : List Request) :
    s.position.offset ≤ (s.serveAll requests).position.offset := by
  induction requests generalizing s with
  | nil => exact Nat.le_refl _
  | cons request requests ih =>
      obtain ⟨gap, text, moves⟩ := s.serve_moves request
      exact Nat.le_trans moves.offset_le (ih _)

/-- After any requests a new scanner fits its text, and later ones do not move it
back. -/
theorem serveAll_fits (source : String) (requests : List Request) :
    ((ofString source).serveAll requests).Fits source ∧
      ∀ later, ((ofString source).serveAll requests).position.offset ≤
        ((ofString source).serveAll (requests ++ later)).position.offset := by
  constructor
  · obtain ⟨before, passed, splits⟩ := serveAll_splits (splits_ofString source) requests
    exact splits.fits
  · intro later
    have appended : (ofString source).serveAll (requests ++ later) =
        ((ofString source).serveAll requests).serveAll later := List.foldl_append
    rw [appended]
    exact serveAll_offset_le ..

end Scanner

end PolyCalc
