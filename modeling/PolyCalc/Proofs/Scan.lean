import PolyCalc.Scanner

/-!
Tokens of a text, by its characters.

What a scanner reads depends on its place and on the characters that are left
only; `tokensFrom` is the list of tokens as a function of these two. A blank ends
every token (`lexeme_append_blank`), so a newline between two texts keeps their
tokens apart (`tokensFrom_newline`). The tokens of a text that is moved are the
moved tokens (`tokensFrom_map`).
-/

namespace PolyCalc

/-- The tokens of the characters, the first of which stands at `p`. -/
def tokensFrom (p : Position) (cs : List Char) : List Located :=
  (⟨cs, p, .endOfFile, p, ""⟩ : Scanner).tokens

namespace Scanner

/-- The tokens do not depend on what was read before. -/
theorem tokens_congr {s s' : Scanner} (rest : s.rest = s'.rest)
    (position : s.position = s'.position) : s.tokens = s'.tokens := by
  induction length : s.rest.length using Nat.strongRecOn generalizing s s' with
  | ind n ih =>
      have read : s.read.rest = s'.read.rest ∧ s.read.position = s'.read.position ∧
          s.read.token = s'.read.token ∧ s.read.start = s'.read.start := by
        unfold Scanner.read
        rw [rest, position]
        split <;> exact ⟨rfl, rfl, rfl, rfl⟩
      obtain ⟨rest', position', token, start⟩ := read
      have located : s.read.located = s'.read.located := by
        unfold Scanner.located
        rw [token, start]
      rw [tokens, tokens.eq_1 s', token, located]
      split
      · rfl
      · rename_i more
        rw [ih _ (length ▸ length_read_rest_lt (token ▸ more)) rest' position' rfl]

theorem tokens_eq (s : Scanner) : s.tokens = tokensFrom s.position s.rest :=
  tokens_congr rfl rfl

end Scanner

/-- The tokens of a text start at its first character. -/
theorem scan_eq (source : String) : scan source = tokensFrom .start source.toList :=
  Scanner.tokens_eq _

/-! ### One token after the other -/

/-- A token with characters is not the end of the text. -/
theorem lexeme_token_ne (c : Char) (cs : List Char) : (lexeme c cs).token ≠ .endOfFile := by
  unfold lexeme
  split
  · simp only [wordToken]
    split <;> simp
  · split
    · simp
    · split
      · simp
      · simp
      · simp only [symbolToken]
        split <;> simp

/-- Nothing is left but blanks and comments. -/
theorem tokensFrom_nil {p q : Position} {cs : List Char}
    (skipped : skipTrivia false p cs = (q, [])) : tokensFrom p cs = [⟨.endOfFile, q⟩] := by
  unfold tokensFrom
  rw [Scanner.tokens]
  simp [Scanner.read, Scanner.located, skipped]

/-- A token, and the tokens of what follows it. -/
theorem tokensFrom_cons {p q : Position} {cs rest : List Char} {c : Char}
    (skipped : skipTrivia false p cs = (q, c :: rest)) :
    tokensFrom p cs = ⟨(lexeme c rest).token, q⟩ ::
      tokensFrom (q.afterAll (lexeme c rest).text) (lexeme c rest).rest := by
  conv => lhs; unfold tokensFrom
  rw [Scanner.tokens]
  simp [Scanner.read, Scanner.located, skipped, lexeme_token_ne, Scanner.tokens_eq]

/-- Induction on the tokens of a text: it ends, or a token is read and the rest
has one token less. -/
@[elab_as_elim]
theorem tokensFrom_induction {motive : Position → List Char → Prop}
    (nil : ∀ p q cs, skipTrivia false p cs = (q, []) → motive p cs)
    (cons : ∀ p q cs c rest, skipTrivia false p cs = (q, c :: rest) →
      motive (q.afterAll (lexeme c rest).text) (lexeme c rest).rest → motive p cs)
    (p : Position) (cs : List Char) : motive p cs := by
  induction length : cs.length using Nat.strongRecOn generalizing p cs with
  | ind n ih =>
      have shorter := Scanner.length_skipTrivia_le false p cs
      rcases skipped : skipTrivia false p cs with ⟨q, _ | ⟨c, rest⟩⟩
      · exact nil p q cs skipped
      · simp only [skipped] at shorter
        have read := Scanner.length_lexeme_rest_lt c rest
        exact cons p q cs c rest skipped (ih _ (by omega) _ _ rfl)

/-- The tokens end with the end of the text, and nowhere else. -/
theorem tokensFrom_ends (p : Position) (cs : List Char) :
    ∃ words q, tokensFrom p cs = words ++ [⟨.endOfFile, q⟩] ∧
      ∀ t ∈ words, t.token ≠ .endOfFile := by
  induction p, cs using tokensFrom_induction with
  | nil p q cs skipped => exact ⟨[], q, tokensFrom_nil skipped, by simp⟩
  | cons p q cs c rest skipped ih =>
      obtain ⟨words, e, tokens, proper⟩ := ih
      refine ⟨⟨(lexeme c rest).token, q⟩ :: words, e, ?_, ?_⟩
      · rw [tokensFrom_cons skipped, tokens, List.cons_append]
      · exact List.forall_mem_cons.mpr ⟨lexeme_token_ne c rest, proper⟩

/-- The tokens of a text before its end. -/
def wordsOf (source : String) : List Token := (scan source).dropLast.map Located.token

/-- The tokens of a text are its words and its end. -/
theorem scan_words (source : String) :
    ∃ words q, scan source = words ++ [⟨.endOfFile, q⟩] ∧
      wordsOf source = words.map Located.token ∧ ∀ t ∈ words, t.token ≠ .endOfFile := by
  obtain ⟨words, q, tokens, proper⟩ := tokensFrom_ends .start source.toList
  refine ⟨words, q, (scan_eq source).trans tokens, ?_, proper⟩
  rw [wordsOf, scan_eq, tokens, List.dropLast_concat]

/-- The text does not end before one of its tokens. -/
theorem scan_before {source : String} {before after : List Located} {t : Located}
    (split : scan source = before ++ t :: after) : ∀ u ∈ before, u.token ≠ .endOfFile := by
  obtain ⟨words, q, scanned, -, proper⟩ := scan_words source
  have earlier : words = before ++ (t :: after).dropLast := by
    rw [← List.dropLast_append_of_ne_nil (List.cons_ne_nil t after), ← split, scanned,
      List.dropLast_concat]
  exact fun u member => proper u (earlier ▸ List.mem_append_left _ member)

theorem scan_ne_nil (source : String) : scan source ≠ [] := by
  obtain ⟨words, q, scanned, -⟩ := scan_words source
  simp [scanned]

/-! ### Characters and places -/

namespace Position

@[simp] theorem afterAll_nil (p : Position) : p.afterAll [] = p := rfl

@[simp] theorem afterAll_cons (p : Position) (c : Char) (cs : List Char) :
    p.afterAll (c :: cs) = (p.after c).afterAll cs := rfl

theorem afterAll_append (p : Position) (xs ys : List Char) :
    p.afterAll (xs ++ ys) = (p.afterAll xs).afterAll ys :=
  List.foldl_append

/-- The line grows by the number of newlines. -/
theorem line_afterAll (p : Position) (cs : List Char) :
    (p.afterAll cs).line = p.line + cs.count '\n' := by
  induction cs generalizing p with
  | nil => rfl
  | cons c cs ih =>
      rw [afterAll_cons, ih, after, List.count_cons]
      by_cases newline : c = '\n'
      · simp [newline]
        omega
      · simp [newline]

end Position

/-- Splitting a number off loses no character. -/
theorem splitNumber_append (cs : List Char) : (splitNumber cs).1 ++ (splitNumber cs).2 = cs := by
  have whole := List.takeWhile_append_dropWhile (p := Char.isDigit) (l := cs)
  unfold splitNumber
  split
  · rename_i d rest remains
    split
    · rw [List.append_assoc, List.cons_append, List.takeWhile_append_dropWhile, ← remains, whole]
    · rw [← remains, whole]
  · exact whole

/-- A lexeme and what follows it are all there was. -/
theorem lexeme_text_append (c : Char) (cs : List Char) :
    (lexeme c cs).text ++ (lexeme c cs).rest = c :: cs := by
  unfold lexeme
  split
  · simp
  · split
    · exact splitNumber_append (c :: cs)
    · split <;> rfl

/-- Whether a character is skipped does not depend on what follows it. -/
theorem skipTrivia_cons (inComment : Bool) (p : Position) (c : Char) :
    (∃ b, ∀ cs, skipTrivia inComment p (c :: cs) = skipTrivia b (p.after c) cs) ∨
      ∀ cs, skipTrivia inComment p (c :: cs) = (p, c :: cs) := by
  simp only [skipTrivia]
  split
  · exact .inl ⟨_, fun _ => rfl⟩
  split
  · exact .inl ⟨_, fun _ => rfl⟩
  split
  · exact .inl ⟨_, fun _ => rfl⟩
  · exact .inr fun _ => rfl

/-- Skipping only moves over characters. -/
theorem skipTrivia_split (inComment : Bool) (p : Position) (cs : List Char) :
    ∃ skipped, cs = skipped ++ (skipTrivia inComment p cs).2 ∧
      (skipTrivia inComment p cs).1 = p.afterAll skipped := by
  induction cs generalizing inComment p with
  | nil => exact ⟨[], rfl, rfl⟩
  | cons c cs ih =>
      rcases skipTrivia_cons inComment p c with ⟨b, skips⟩ | stops
      · obtain ⟨skipped, same, place⟩ := ih b (p.after c)
        rw [skips]
        exact ⟨c :: skipped, by rw [List.cons_append, ← same], place⟩
      · rw [stops]
        exact ⟨[], rfl, rfl⟩

/-- Skipping stops neither at a blank nor at a comment. -/
theorem skipTrivia_stop {inComment : Bool} {p : Position} {cs rest : List Char} {c : Char}
    (skipped : (skipTrivia inComment p cs).2 = c :: rest) : isBlank c = false ∧ c ≠ '#' := by
  induction cs generalizing inComment p with
  | nil => cases skipped
  | cons d cs ih =>
      simp only [skipTrivia] at skipped
      split at skipped
      · exact ih skipped
      split at skipped
      · exact ih skipped
      split at skipped
      · exact ih skipped
      · rename_i notBlank noComment
        cases skipped
        exact ⟨Bool.eq_false_iff.mpr notBlank, fun same => noComment (beq_iff_eq.mpr same)⟩

/-! ### A blank ends every token -/

section

variable {b : Char}

theorem not_continuesName_of_isBlank (blank : isBlank b = true) : continuesName b = false := by
  simp only [isBlank, Bool.or_eq_true, beq_iff_eq] at blank
  rcases blank with ((rfl | rfl) | rfl) | rfl <;> decide

theorem not_isDigit_of_isBlank (blank : isBlank b = true) : b.isDigit = false := by
  simp only [isBlank, Bool.or_eq_true, beq_iff_eq] at blank
  rcases blank with ((rfl | rfl) | rfl) | rfl <;> decide

/-- A character that the run cannot go on with ends it, whatever follows. -/
theorem takeWhile_append_stop {p : Char → Bool} (stop : p b = false) (cs rest : List Char) :
    (cs ++ b :: rest).takeWhile p = cs.takeWhile p := by
  induction cs with
  | nil => simp [stop]
  | cons c cs ih =>
      rw [List.cons_append, List.takeWhile_cons, List.takeWhile_cons, ih]

theorem dropWhile_append_stop {p : Char → Bool} (stop : p b = false) (cs rest : List Char) :
    (cs ++ b :: rest).dropWhile p = cs.dropWhile p ++ b :: rest := by
  induction cs with
  | nil => simp [stop]
  | cons c cs ih =>
      rw [List.cons_append, List.dropWhile_cons, List.dropWhile_cons, ih]
      split <;> rfl

/-- A blank ends a number: what is split off before it does not depend on it. -/
theorem splitNumber_append_blank (blank : isBlank b = true) (cs rest : List Char) :
    splitNumber (cs ++ b :: rest) = ((splitNumber cs).1, (splitNumber cs).2 ++ b :: rest) := by
  have stop := not_isDigit_of_isBlank blank
  have notPoint : b ≠ '.' := by
    rintro rfl
    exact absurd blank (by decide)
  unfold splitNumber
  rw [takeWhile_append_stop stop, dropWhile_append_stop stop]
  -- What follows the digits decides: a point and a digit, or anything else.
  rcases cs.dropWhile Char.isDigit with _ | ⟨c, _ | ⟨d, more⟩⟩
  · split
    · rename_i same
      cases same
      exact absurd rfl notPoint
    · rfl
  · by_cases point : c = '.'
    · subst point
      simp [stop]
    · simp [point]
  · by_cases point : c = '.'
    · subst point
      simp only [List.cons_append]
      split
      · rw [← List.cons_append, takeWhile_append_stop stop, dropWhile_append_stop stop]
      · rfl
    · simp [point]

/-- A character that starts neither a word nor a number nor a pair of characters
is a token by itself. -/
theorem lexeme_symbol {c : Char} {cs : List Char} (notAlpha : ¬ c.isAlpha = true)
    (notDigit : ¬ c.isDigit = true) (notAssign : ∀ rest, c = ':' → cs ≠ '=' :: rest)
    (notArrow : ∀ rest, c = '-' → cs ≠ '>' :: rest) : lexeme c cs = ⟨symbolToken c, [c], cs⟩ := by
  unfold lexeme
  rw [if_neg notAlpha, if_neg notDigit]
  split
  · exact absurd rfl (notAssign _ rfl)
  · exact absurd rfl (notArrow _ rfl)
  · rfl

/-- A blank ends every token. -/
theorem lexeme_append_blank (blank : isBlank b = true) (c : Char) (cs rest : List Char) :
    lexeme c (cs ++ b :: rest) =
      ⟨(lexeme c cs).token, (lexeme c cs).text, (lexeme c cs).rest ++ b :: rest⟩ := by
  have stop := not_continuesName_of_isBlank blank
  by_cases alpha : c.isAlpha = true
  · simp only [lexeme, if_pos alpha, takeWhile_append_stop stop, dropWhile_append_stop stop]
  by_cases digit : c.isDigit = true
  · simp only [lexeme, if_neg alpha, if_pos digit]
    rw [← List.cons_append, splitNumber_append_blank blank]
  -- A blank does not complete a pair of characters, so the first one decides as before.
  by_cases assign : ∃ more, c = ':' ∧ cs = '=' :: more
  · obtain ⟨more, rfl, rfl⟩ := assign
    rfl
  by_cases arrow : ∃ more, c = '-' ∧ cs = '>' :: more
  · obtain ⟨more, rfl, rfl⟩ := arrow
    rfl
  have starts : ∀ {d : Char} {more : List Char}, isBlank d = false → cs ++ b :: rest = d :: more →
      ∃ tail, cs = d :: tail := by
    intro d more solid same
    rcases cs with _ | ⟨c', cs⟩
    · cases same
      exact absurd blank (Bool.eq_false_iff.mp solid)
    · cases same
      exact ⟨cs, rfl⟩
  rw [lexeme_symbol alpha digit, lexeme_symbol alpha digit]
  · exact fun more first second => assign ⟨more, first, second⟩
  · exact fun more first second => arrow ⟨more, first, second⟩
  · intro more first second
    obtain ⟨tail, same⟩ := starts (by decide) second
    exact assign ⟨tail, first, same⟩
  · intro more first second
    obtain ⟨tail, same⟩ := starts (by decide) second
    exact arrow ⟨tail, first, same⟩

end

/-! ### A newline between two texts -/

/-- Skipping stops at the first character of a token, whatever is appended. -/
theorem skipTrivia_append {inComment : Bool} {p q : Position} {cs rest : List Char} {c : Char}
    (skipped : skipTrivia inComment p cs = (q, c :: rest)) (more : List Char) :
    skipTrivia inComment p (cs ++ more) = (q, c :: (rest ++ more)) := by
  induction cs generalizing inComment p with
  | nil => simp [skipTrivia] at skipped
  | cons d cs ih =>
      rw [List.cons_append]
      rcases skipTrivia_cons inComment p d with ⟨b, skips⟩ | stops
      · rw [skips] at skipped ⊢
        exact ih skipped
      · rw [stops] at skipped ⊢
        cases skipped
        rfl

/-- A newline ends a comment, so it does not matter whether there is one. -/
theorem skipTrivia_newline {inComment : Bool} {p q : Position} {cs : List Char}
    (skipped : skipTrivia inComment p cs = (q, [])) (more : List Char) :
    skipTrivia inComment p (cs ++ '\n' :: more) =
      skipTrivia false ((p.afterAll cs).after '\n') more := by
  induction cs generalizing inComment p with
  | nil =>
      cases inComment
      · simp [skipTrivia, isBlank]
      · simp [skipTrivia]
  | cons d cs ih =>
      rw [List.cons_append]
      rcases skipTrivia_cons inComment p d with ⟨b, skips⟩ | stops
      · rw [skips] at skipped ⊢
        exact ih skipped
      · rw [stops] at skipped
        cases skipped

/-- Only what skipping leaves counts. -/
theorem tokensFrom_skipTrivia {p p' : Position} {cs cs' : List Char}
    (same : skipTrivia false p cs = skipTrivia false p' cs') :
    tokensFrom p cs = tokensFrom p' cs' := by
  rcases skipped : skipTrivia false p cs with ⟨q, _ | ⟨c, rest⟩⟩
  · exact (tokensFrom_nil skipped).trans (tokensFrom_nil (same ▸ skipped)).symm
  · exact (tokensFrom_cons skipped).trans (tokensFrom_cons (same ▸ skipped)).symm

/-- The tokens of two texts with a newline between them are those of the first,
without its end, and those of the second. -/
theorem tokensFrom_newline (p : Position) (cs more : List Char) :
    tokensFrom p (cs ++ '\n' :: more) =
      (tokensFrom p cs).dropLast ++ tokensFrom ((p.afterAll cs).after '\n') more := by
  induction p, cs using tokensFrom_induction with
  | nil p q cs skipped =>
      rw [tokensFrom_nil skipped, List.dropLast_singleton, List.nil_append]
      exact tokensFrom_skipTrivia (skipTrivia_newline skipped more)
  | cons p q cs c rest skipped ih =>
      have blank : isBlank '\n' = true := by decide
      obtain ⟨trivia, whole, place⟩ := skipTrivia_split false p cs
      simp only [skipped] at whole place
      -- The place after the first text does not depend on how it is cut into tokens.
      have ends : p.afterAll cs =
          (q.afterAll (lexeme c rest).text).afterAll (lexeme c rest).rest := by
        rw [← Position.afterAll_append, lexeme_text_append, place, ← Position.afterAll_append,
          ← whole]
      obtain ⟨words, e, tokens, -⟩ :=
        tokensFrom_ends (q.afterAll (lexeme c rest).text) (lexeme c rest).rest
      rw [tokensFrom_cons skipped, tokensFrom_cons (skipTrivia_append skipped _),
        lexeme_append_blank blank, ih, ends, tokens]
      simp only [List.dropLast_concat, ← List.cons_append]

/-! ### Texts at other places -/

section

variable {f : Position → Position}

theorem Position.map_afterAll (commutes : ∀ p c, f (p.after c) = (f p).after c) (p : Position)
    (cs : List Char) : f (p.afterAll cs) = (f p).afterAll cs := by
  induction cs generalizing p with
  | nil => rfl
  | cons c cs ih => rw [afterAll_cons, afterAll_cons, ih, commutes]

/-- What is skipped does not depend on the place. -/
theorem skipTrivia_map (commutes : ∀ p c, f (p.after c) = (f p).after c) (inComment : Bool)
    (p : Position) (cs : List Char) :
    skipTrivia inComment (f p) cs =
      (f (skipTrivia inComment p cs).1, (skipTrivia inComment p cs).2) := by
  induction cs generalizing inComment p with
  | nil => rfl
  | cons c cs ih =>
      simp only [skipTrivia, ← commutes, ih]
      split
      · rfl
      split
      · rfl
      split <;> rfl

/-- A text that starts elsewhere has the same tokens, elsewhere. -/
theorem tokensFrom_map (commutes : ∀ p c, f (p.after c) = (f p).after c) (p : Position)
    (cs : List Char) :
    tokensFrom (f p) cs = (tokensFrom p cs).map fun t => ⟨t.token, f t.start⟩ := by
  induction p, cs using tokensFrom_induction with
  | nil p q cs skipped =>
      have moved := skipTrivia_map commutes false p cs
      rw [skipped] at moved
      rw [tokensFrom_nil skipped, tokensFrom_nil moved]
      rfl
  | cons p q cs c rest skipped ih =>
      have moved := skipTrivia_map commutes false p cs
      rw [skipped] at moved
      rw [tokensFrom_cons skipped, tokensFrom_cons moved, ← Position.map_afterAll commutes, ih]
      rfl

end

end PolyCalc
