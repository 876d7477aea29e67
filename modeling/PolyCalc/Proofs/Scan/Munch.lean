import PolyCalc.Proofs.Scan.Spaced

/-!
Where tokens end.

`Munch` says what each lexeme is made of and what may not follow it: a word goes
on for as long as it can, a number takes a point only together with a digit, and
a character that begins a pair stands alone only before another one. The scanner
finds these lexemes (`lexeme_munch`) and no others (`Munch.lexeme`).
-/

namespace PolyCalc

/-! ### Boundaries -/

/-- No character of the class follows. -/
def Ends (p : Char → Bool) (rest : List Char) : Prop := ∀ c, rest.head? = some c → p c = false

/-- A point and a digit follow. -/
def StartsFraction (rest : List Char) : Prop :=
  ∃ d more, rest = '.' :: d :: more ∧ d.isDigit = true

section

variable {p : Char → Bool} {run rest : List Char}

theorem takeWhile_ends (all : ∀ c ∈ run, p c = true) (ends : Ends p rest) :
    (run ++ rest).takeWhile p = run := by
  rw [List.takeWhile_append_of_pos all]
  cases rest with
  | nil => simp
  | cons c rest => simp [ends c rfl]

theorem dropWhile_ends (all : ∀ c ∈ run, p c = true) (ends : Ends p rest) :
    (run ++ rest).dropWhile p = rest := by
  rw [List.dropWhile_append_of_pos all]
  cases rest with
  | nil => rfl
  | cons c rest => simp [ends c rfl]

/-- A run stops where it has to. -/
theorem ends_dropWhile (p : Char → Bool) (cs : List Char) : Ends p (cs.dropWhile p) := by
  intro c found
  have stops := List.head?_dropWhile_not p cs
  rw [found] at stops
  exact stops

/-- Every character of a run is of its class. -/
theorem of_mem_takeWhile {cs : List Char} {c : Char} (member : c ∈ cs.takeWhile p) : p c = true :=
  List.all_eq_true.mp List.all_takeWhile c member

theorem isDigits_takeWhile {cs : List Char} {d : Char} (digit : d.isDigit = true) :
    IsDigits ((d :: cs).takeWhile Char.isDigit) := by
  constructor
  · rw [List.takeWhile_cons_of_pos digit]
    simp
  · intro c member
    exact of_mem_takeWhile member

end

/-! ### Lexemes and what follows them -/

/-- What lexemes are made of, and what does not follow them. -/
inductive Munch : Lexeme → Prop where
  | word {c : Char} {run rest : List Char} : c.isAlpha = true →
      (∀ d ∈ run, continuesName d = true) → Ends continuesName rest →
      Munch ⟨wordToken (c :: run), c :: run, rest⟩
  | whole {digits rest : List Char} : IsDigits digits → Ends Char.isDigit rest →
      ¬ StartsFraction rest → Munch ⟨.number (String.ofList digits), digits, rest⟩
  | fraction {whole decimals rest : List Char} : IsDigits whole → IsDigits decimals →
      Ends Char.isDigit rest →
      Munch ⟨.number (String.ofList (whole ++ '.' :: decimals)), whole ++ '.' :: decimals, rest⟩
  | assign {rest : List Char} : Munch ⟨.assign, [':', '='], rest⟩
  | arrow {rest : List Char} : Munch ⟨.arrow, ['-', '>'], rest⟩
  | symbol {c : Char} {rest : List Char} : ¬ c.isAlpha = true → ¬ c.isDigit = true →
      (c = ':' → rest.head? ≠ some '=') → (c = '-' → rest.head? ≠ some '>') →
      Munch ⟨symbolToken c, [c], rest⟩

/-- A number without a fraction. -/
theorem splitNumber_whole {cs : List Char}
    (plain : ¬ StartsFraction (cs.dropWhile Char.isDigit)) :
    splitNumber cs = (cs.takeWhile Char.isDigit, cs.dropWhile Char.isDigit) := by
  unfold splitNumber
  split
  · rename_i d rest remains
    rw [remains] at plain
    rw [if_neg fun digit => plain ⟨d, rest, rfl, digit⟩, remains]
  · rfl

/-- A number with a fraction. -/
theorem splitNumber_fraction {cs more : List Char} {d : Char}
    (remains : cs.dropWhile Char.isDigit = '.' :: d :: more) (digit : d.isDigit = true) :
    splitNumber cs = (cs.takeWhile Char.isDigit ++ '.' :: (d :: more).takeWhile Char.isDigit,
      (d :: more).dropWhile Char.isDigit) := by
  unfold splitNumber
  rw [remains]
  exact if_pos digit

/-- A digit starts a number. -/
theorem lexeme_number {c : Char} {cs digits rest : List Char} (digit : c.isDigit = true)
    (split : splitNumber (c :: cs) = (digits, rest)) :
    lexeme c cs = ⟨.number (String.ofList digits), digits, rest⟩ := by
  simp only [lexeme, not_isAlpha_of_isDigit digit, digit, split, if_true, Bool.false_eq_true,
    if_false]

/-- The scanner takes as much as it can. -/
theorem lexeme_munch (c : Char) (cs : List Char) : Munch (lexeme c cs) := by
  by_cases alpha : c.isAlpha = true
  · unfold lexeme
    rw [if_pos alpha]
    exact .word alpha (fun _ => of_mem_takeWhile) (ends_dropWhile continuesName cs)
  by_cases digit : c.isDigit = true
  · by_cases point : StartsFraction ((c :: cs).dropWhile Char.isDigit)
    · obtain ⟨d, more, remains, decimal⟩ := point
      rw [lexeme_number digit (splitNumber_fraction remains decimal)]
      exact .fraction (isDigits_takeWhile digit) (isDigits_takeWhile decimal) (ends_dropWhile _ _)
    · rw [lexeme_number digit (splitNumber_whole point)]
      exact .whole (isDigits_takeWhile digit) (ends_dropWhile _ _) point
  -- What is left are single characters, and the two pairs of them.
  by_cases assign : ∃ more, c = ':' ∧ cs = '=' :: more
  · obtain ⟨more, rfl, rfl⟩ := assign
    exact .assign
  by_cases arrow : ∃ more, c = '-' ∧ cs = '>' :: more
  · obtain ⟨more, rfl, rfl⟩ := arrow
    exact .arrow
  rw [lexeme_symbol alpha digit (fun more first second => assign ⟨more, first, second⟩)
    fun more first second => arrow ⟨more, first, second⟩]
  refine .symbol alpha digit ?_ ?_
  · intro first second
    obtain ⟨more, rfl⟩ := List.head?_eq_some_iff.mp second
    exact assign ⟨more, first, rfl⟩
  · intro first second
    obtain ⟨more, rfl⟩ := List.head?_eq_some_iff.mp second
    exact arrow ⟨more, first, rfl⟩

/-- A lexeme that may end where it does is what the scanner finds. -/
theorem Munch.lexeme {l : Lexeme} (munch : Munch l) {c : Char} {more : List Char}
    (text : l.text = c :: more) : lexeme c (more ++ l.rest) = l := by
  cases munch with
  | word alpha goes ends =>
      cases text
      simp only [PolyCalc.lexeme, alpha, if_true, takeWhile_ends goes ends,
        dropWhile_ends goes ends]
  | whole digits ends plain =>
      have remains := dropWhile_ends digits.2 ends
      have split := splitNumber_whole (remains.symm ▸ plain)
      rw [takeWhile_ends digits.2 ends, remains] at split
      cases text
      exact lexeme_number (digits.2 c List.mem_cons_self) split
  | @fraction whole decimals rest digits decimal ends =>
      obtain ⟨d, decimals, rfl⟩ := List.exists_cons_of_ne_nil decimal.1
      have split := splitNumber_fraction (@dropWhile_point _ (d :: (decimals ++ rest)) digits)
        (decimal.2 d List.mem_cons_self)
      rw [takeWhile_point digits, ← List.cons_append, takeWhile_ends decimal.2 ends,
        dropWhile_ends decimal.2 ends] at split
      obtain ⟨first, whole, rfl⟩ := List.exists_cons_of_ne_nil digits.1
      obtain ⟨rfl, rfl⟩ :=
        List.cons.inj (show first :: (whole ++ '.' :: d :: decimals) = c :: more from text)
      rw [List.append_assoc]
      exact lexeme_number (digits.2 first List.mem_cons_self) split
  | assign =>
      cases text
      rfl
  | arrow =>
      cases text
      rfl
  | symbol notAlpha notDigit notAssign notArrow =>
      cases text
      refine lexeme_symbol notAlpha notDigit ?_ ?_
      · rintro rest first rfl
        exact notAssign first rfl
      · rintro rest first rfl
        exact notArrow first rfl

/-! ### Names -/

theorem symbolToken_ne (c : Char) (name : String) : symbolToken c ≠ .identifier name := by
  unfold symbolToken
  split <;> simp

/-- Names consist of characters that continue names. -/
theorem IsName.continues {s : String} (h : IsName s) : ∀ c ∈ s.toList, continuesName c = true := by
  obtain ⟨-, c, run, same, alpha, goes⟩ := h
  rw [same]
  exact List.forall_mem_cons.mpr ⟨continuesName_of_isAlpha alpha, goes⟩

/-- Names are on one line. -/
theorem IsName.count_newline {s : String} (h : IsName s) : s.toList.count '\n' = 0 := by
  refine List.count_eq_zero.mpr fun newline => ?_
  exact absurd (h.continues _ newline) (by decide)

/-- A name is a lexeme where it cannot go on. -/
theorem IsName.munch {s : String} {rest : List Char} (h : IsName s)
    (ends : Ends continuesName rest) : Munch ⟨.identifier s, s.toList, rest⟩ := by
  obtain ⟨notKeyword, c, run, same, alpha, goes⟩ := h
  rw [← wordToken_name notKeyword, same]
  exact .word alpha goes ends

/-- Lexemes of names consist of the name, which cannot go on. -/
theorem Munch.isName {l : Lexeme} (munch : Munch l) {name : String}
    (named : l.token = .identifier name) :
    IsName name ∧ l.text = name.toList ∧ Ends continuesName l.rest := by
  cases munch with
  | @word c run rest alpha goes ends =>
      have word : wordToken (c :: run) = .identifier name := named
      rw [wordToken] at word
      split at word
      · cases word
      · rename_i notKeyword
        cases word
        refine ⟨⟨?_, c, run, String.toList_ofList, alpha, goes⟩, String.toList_ofList.symm, ends⟩
        intro keyword
        exact notKeyword (String.ofList_injective keyword)
  | symbol => exact absurd named (symbolToken_ne _ name)
  | whole | fraction | assign | arrow => cases named

theorem Munch.text_ne_nil {l : Lexeme} (munch : Munch l) : l.text ≠ [] := by
  cases munch with
  | whole digits => exact digits.1
  | _ => simp

/-- A lexeme begins with the character that was found. -/
theorem lexeme_text_cons (c : Char) (cs : List Char) :
    ∃ more, (lexeme c cs).text = c :: more := by
  obtain ⟨first, more, text⟩ := List.exists_cons_of_ne_nil (lexeme_munch c cs).text_ne_nil
  have whole := lexeme_text_append c cs
  rw [text] at whole
  obtain ⟨rfl, -⟩ := List.cons.inj whole
  exact ⟨more, text⟩

end PolyCalc
