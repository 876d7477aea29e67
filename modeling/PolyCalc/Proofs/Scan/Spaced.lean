import PolyCalc.Proofs.Scan

/-!
Tokens written with spaces between them.

The texts of names, numbers and the fixed tokens are scanned as these tokens
(`Token.Legible.reads`), and since a blank ends every token, so is a whole row of
them with spaces between them (`scan_spaced`). Every literal stands for a number
(`IsLiteral.read`).
-/

namespace PolyCalc

/-! ### Names and literals -/

/-- A letter, then letters, digits and underscores, but not the keyword. -/
def IsName (s : String) : Prop :=
  s ≠ "var" ∧ ∃ c cs, s.toList = c :: cs ∧ c.isAlpha = true ∧ ∀ d ∈ cs, continuesName d = true

/-- At least one digit, and only digits. -/
def IsDigits (cs : List Char) : Prop := cs ≠ [] ∧ ∀ c ∈ cs, c.isDigit = true

/-- Digits, or digits, a point and digits. -/
def IsLiteral (s : String) : Prop :=
  IsDigits s.toList ∨
    ∃ whole fraction, IsDigits whole ∧ IsDigits fraction ∧ s.toList = whole ++ '.' :: fraction

section

variable {cs rest : List Char}

theorem takeWhile_all {p : Char → Bool} (all : ∀ c ∈ cs, p c = true) : cs.takeWhile p = cs := by
  simpa using @List.takeWhile_append_of_pos _ p cs [] all

theorem dropWhile_all {p : Char → Bool} (all : ∀ c ∈ cs, p c = true) : cs.dropWhile p = [] := by
  simpa using @List.dropWhile_append_of_pos _ p cs [] all

/-- Digits up to a point. -/
theorem takeWhile_point (digits : IsDigits cs) :
    (cs ++ '.' :: rest).takeWhile Char.isDigit = cs := by
  rw [takeWhile_append_stop (by decide), takeWhile_all digits.2]

theorem dropWhile_point (digits : IsDigits cs) :
    (cs ++ '.' :: rest).dropWhile Char.isDigit = '.' :: rest := by
  rw [dropWhile_append_stop (by decide), dropWhile_all digits.2, List.nil_append]

end

/-- A literal is split off as a whole. -/
theorem IsLiteral.splitNumber {s : String} (h : IsLiteral s) :
    splitNumber s.toList = (s.toList, []) := by
  rcases h with digits | ⟨whole, fraction, digits, ⟨more, decimals⟩, same⟩
  · rw [PolyCalc.splitNumber, dropWhile_all digits.2, takeWhile_all digits.2]
  · obtain ⟨d, fraction, rfl⟩ := List.exists_cons_of_ne_nil more
    rw [same, PolyCalc.splitNumber, dropWhile_point digits, takeWhile_point digits]
    simp only [decimals d List.mem_cons_self, if_true, takeWhile_all decimals,
      dropWhile_all decimals]

/-- Every literal stands for a number. -/
theorem IsLiteral.read {s : String} (h : IsLiteral s) : ∃ x, Number.read? s = some x := by
  have decimal : ∃ x, Number.readDecimal? s.toList = some x := by
    unfold Number.readDecimal?
    rcases h with ⟨more, digits⟩ | ⟨whole, fraction, digits, ⟨more, decimals⟩, same⟩
    · simp [takeWhile_all digits, dropWhile_all digits, more]
    · have none : (fraction.all Char.isDigit) = true := List.all_eq_true.mpr decimals
      simp [same, takeWhile_point digits, dropWhile_point digits, digits.1, more, none]
  obtain ⟨x, read⟩ := decimal
  exact ⟨x, by rw [Number.read?, read]; rfl⟩

/-! ### Legible tokens -/

/-- The text of the token is scanned as the token. -/
def Token.Reads (t : Token) : Prop :=
  ∃ c cs, t.text.toList = c :: cs ∧ isBlank c = false ∧ c ≠ '#' ∧ lexeme c cs = ⟨t, c :: cs, []⟩

/-- The fixed tokens, names and literals. -/
def Token.Legible : Token → Prop
  | identifier name => IsName name
  | number literal => IsLiteral literal
  | endOfFile | stray _ => False
  | _ => True

/-- A character of names and numbers is neither a blank nor the start of a comment. -/
theorem solid_of_continuesName {c : Char} (goes : continuesName c = true) :
    isBlank c = false ∧ c ≠ '#' := by
  constructor
  · refine Bool.eq_false_iff.mpr fun blank => ?_
    rw [not_continuesName_of_isBlank blank] at goes
    cases goes
  · rintro rfl
    exact absurd goes (by decide)

theorem continuesName_of_isAlpha {c : Char} (alpha : c.isAlpha = true) :
    continuesName c = true := by
  simp [continuesName, Char.isAlphanum, alpha]

/-- A word other than the keyword is a name. -/
theorem wordToken_name {s : String} (notKeyword : s ≠ "var") :
    wordToken s.toList = .identifier s := by
  have other : s.toList ≠ ['v', 'a', 'r'] := fun keyword =>
    notKeyword (String.toList_inj.mp keyword)
  rw [wordToken, if_neg other, String.ofList_toList]

/-- A name is scanned as a whole, and not as the keyword. -/
theorem IsName.reads {s : String} (h : IsName s) : (Token.identifier s).Reads := by
  obtain ⟨notKeyword, c, cs, same, alpha, rest⟩ := h
  have solid := solid_of_continuesName (continuesName_of_isAlpha alpha)
  have word : wordToken (c :: cs) = .identifier s := same ▸ wordToken_name notKeyword
  refine ⟨c, cs, same, solid.1, solid.2, ?_⟩
  simp only [lexeme, alpha, if_true, takeWhile_all rest, dropWhile_all rest, word]

/-- Digits are not letters, so a literal does not start like a name. -/
theorem not_isAlpha_of_isDigit {c : Char} (digit : c.isDigit = true) : c.isAlpha = false := by
  have range : c.val ≥ '0'.val ∧ c.val ≤ '9'.val := by simpa [Char.isDigit] using digit
  -- Both ranges of letters start above the digits.
  have above {low : UInt32} (high : ¬ low ≤ '9'.val) : ¬ c.val ≥ low := by
    intro reached
    exact high (UInt32.le_trans reached range.2)
  rw [Bool.eq_false_iff]
  intro alpha
  rcases (Bool.or_eq_true _ _).mp alpha with upper | lower
  · exact above (by decide) (of_decide_eq_true upper).1
  · exact above (by decide) (of_decide_eq_true ((Bool.and_eq_true _ _).mp lower).1)

/-- A literal is scanned as a number, up to its last digit. -/
theorem IsLiteral.reads {s : String} (h : IsLiteral s) : (Token.number s).Reads := by
  have first : ∃ c cs, s.toList = c :: cs ∧ c.isDigit = true := by
    rcases h with ⟨more, digits⟩ | ⟨whole, fraction, ⟨more, digits⟩, -, same⟩
    · obtain ⟨c, cs, same⟩ := List.exists_cons_of_ne_nil more
      exact ⟨c, cs, same, digits c (same ▸ List.mem_cons_self)⟩
    · obtain ⟨c, cs, rfl⟩ := List.exists_cons_of_ne_nil more
      exact ⟨c, _, same, digits c List.mem_cons_self⟩
  obtain ⟨c, cs, same, digit⟩ := first
  have notAlpha : c.isAlpha = false := not_isAlpha_of_isDigit digit
  have solid := solid_of_continuesName (c := c) (by simp [continuesName, Char.isAlphanum, digit])
  refine ⟨c, cs, same, solid.1, solid.2, ?_⟩
  simp only [lexeme, notAlpha, digit, if_true, Bool.false_eq_true, if_false, ← same,
    h.splitNumber, String.ofList_toList]

/-- Legible tokens are scanned as themselves. -/
theorem Token.Legible.reads {t : Token} (h : t.Legible) : t.Reads := by
  cases t with
  | identifier name => exact IsName.reads h
  | number literal => exact IsLiteral.reads h
  | endOfFile | stray => cases h
  | _ => exact ⟨_, _, rfl, by decide, by decide, by decide⟩

/-! ### Rows of tokens -/

/-- The tokens with spaces between them. -/
def spaced (ts : List Token) : String := " ".intercalate (ts.map Token.text)

theorem skipTrivia_solid {c : Char} (notBlank : isBlank c = false) (noComment : c ≠ '#')
    (p : Position) (cs : List Char) : skipTrivia false p (c :: cs) = (p, c :: cs) := by
  simp [skipTrivia, notBlank, noComment]

/-- A token at the end of the text. -/
theorem Token.Reads.tokensFrom_last {t : Token} (h : t.Reads) (p : Position) :
    (tokensFrom p t.text.toList).map Located.token = [t, .endOfFile] := by
  obtain ⟨c, cs, text, notBlank, noComment, whole⟩ := h
  have ended (q : Position) : tokensFrom q [] = [⟨.endOfFile, q⟩] := tokensFrom_nil rfl
  rw [text, tokensFrom_cons (skipTrivia_solid notBlank noComment p cs), whole, ended]
  rfl

/-- A token and a space before the rest of the text. -/
theorem Token.Reads.tokensFrom_space {t : Token} (h : t.Reads) (p : Position)
    (more : List Char) :
    ∃ q, tokensFrom p (t.text.toList ++ ' ' :: more) = ⟨t, p⟩ :: tokensFrom q more := by
  obtain ⟨c, cs, text, notBlank, noComment, whole⟩ := h
  have blank : isBlank ' ' = true := rfl
  rw [text, List.cons_append,
    tokensFrom_cons (skipTrivia_solid notBlank noComment p (cs ++ ' ' :: more)),
    lexeme_append_blank blank, whole]
  exact ⟨_, congrArg (_ :: ·) (tokensFrom_skipTrivia rfl)⟩

/-- By induction along the row, from any place on. -/
theorem tokensFrom_spaced (p : Position) {ts : List Token} (reads : ∀ t ∈ ts, t.Reads) :
    (tokensFrom p ([' '].intercalate (ts.map fun t => t.text.toList))).map Located.token =
      ts ++ [.endOfFile] := by
  induction ts generalizing p with
  | nil =>
      have ended : tokensFrom p [] = [⟨.endOfFile, p⟩] := tokensFrom_nil rfl
      simp [ended]
  | cons t ts ih =>
      obtain ⟨first, later⟩ := List.forall_mem_cons.mp reads
      cases ts with
      | nil => simpa using first.tokensFrom_last p
      | cons u ts =>
          obtain ⟨q, read⟩ := first.tokensFrom_space p
            ([' '].intercalate ((u :: ts).map fun t => t.text.toList))
          rw [List.map_cons, List.map_cons, List.intercalate_cons_cons, List.append_assoc]
          exact (congrArg (List.map Located.token) read).trans (congrArg (t :: ·) (ih q later))

/-- A row of tokens with spaces between them is scanned as these tokens. -/
theorem scan_spaced {ts : List Token} (reads : ∀ t ∈ ts, t.Reads) :
    (scan (spaced ts)).map Located.token = ts ++ [.endOfFile] := by
  rw [scan_eq, spaced, String.toList_intercalate, List.map_map]
  exact tokensFrom_spaced .start reads

end PolyCalc
