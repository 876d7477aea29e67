import PolyCalc.Proofs.Relabel
import PolyCalc.Proofs.Scan.Munch

/-!
Texts with other names.

`Relabel.text` gives the names of a text other names and leaves all else as it
is, blanks and comments included. Where a token ends depends on the text after
it, but not on which letter a name there begins with, so the new text has the
new tokens, and on the same lines (`Relabel.scan_text`).
-/

namespace PolyCalc

/-! ### Skipping -/

/-- The same characters are skipped from every place. -/
theorem skipTrivia_everywhere (inComment : Bool) (cs : List Char) :
    ∃ gap rest, cs = gap ++ rest ∧ ∀ p, skipTrivia inComment p cs = (p.afterAll gap, rest) := by
  induction cs generalizing inComment with
  | nil => exact ⟨[], [], rfl, fun _ => rfl⟩
  | cons c cs ih =>
      have skip (b : Bool) : ∃ gap rest, c :: cs = gap ++ rest ∧
          ∀ p : Position, skipTrivia b (p.after c) cs = (p.afterAll gap, rest) := by
        obtain ⟨gap, rest, whole, skips⟩ := ih b
        exact ⟨c :: gap, rest, congrArg (c :: ·) whole, fun p => skips (p.after c)⟩
      simp only [skipTrivia]
      split
      · exact skip _
      split
      · exact skip _
      split
      · exact skip _
      · exact ⟨[], c :: cs, rfl, fun _ => rfl⟩

theorem skipTrivia_rest (inComment : Bool) (p p' : Position) (cs : List Char) :
    (skipTrivia inComment p cs).2 = (skipTrivia inComment p' cs).2 := by
  obtain ⟨gap, rest, -, skips⟩ := skipTrivia_everywhere inComment cs
  rw [skips, skips]

/-- What is skipped before a token is skipped before any other one. -/
theorem skipTrivia_gap {inComment : Bool} {p : Position} {gap rest : List Char} {c : Char}
    (skipped : (skipTrivia inComment p (gap ++ c :: rest)).2 = c :: rest) {c' : Char}
    (notBlank : isBlank c' = false) (noComment : c' ≠ '#') (rest' : List Char) :
    skipTrivia inComment p (gap ++ c' :: rest') = (p.afterAll gap, c' :: rest') := by
  induction gap generalizing inComment p with
  | nil =>
      cases inComment with
      | false => exact skipTrivia_solid notBlank noComment p rest'
      | true =>
          -- In a comment the first character would have been skipped.
          have shorter := Scanner.length_skipTrivia_le (c != '\n') (p.after c) rest
          have whole : (skipTrivia (c != '\n') (p.after c) rest).2 = c :: rest := skipped
          rw [whole, List.length_cons] at shorter
          omega
  | cons d gap ih =>
      rw [List.cons_append] at skipped ⊢
      rcases skipTrivia_cons inComment p d with ⟨b, skips⟩ | stops
      · rw [skips] at skipped ⊢
        exact ih skipped
      · rw [stops] at skipped
        have lengths := congrArg List.length skipped
        simp only [List.length_cons, List.length_append] at lengths
        omega

/-- Less is left after a token. -/
theorem length_rest_lt {p : Position} {cs rest : List Char} {c : Char}
    (skipped : (skipTrivia false p cs).2 = c :: rest) :
    (lexeme c rest).rest.length < cs.length := by
  have shorter := Scanner.length_skipTrivia_le false p cs
  rw [skipped] at shorter
  exact Nat.lt_of_lt_of_le (Scanner.length_lexeme_rest_lt c rest) shorter

/-- Characters with as many newlines lead to the same line. -/
theorem Position.line_afterAll_congr {p p' : Position} {xs ys : List Char}
    (line : p'.line = p.line) (newlines : ys.count '\n' = xs.count '\n') :
    (p'.afterAll ys).line = (p.afterAll xs).line := by
  rw [line_afterAll, line_afterAll, line, newlines]

/-! ### Lexemes before other texts -/

/-- A token that ends before `xs` ends before `ys` too: the texts begin with the same
character or both with a letter. -/
structure Alike (xs ys : List Char) : Prop where
  head : ∀ d, ys.head? = some d →
    ∃ c, xs.head? = some c ∧ (c = d ∨ c.isAlpha = true ∧ d.isAlpha = true)
  fraction : StartsFraction ys → StartsFraction xs

namespace Alike

variable {xs ys : List Char}

theorem refl (xs : List Char) : Alike xs xs := ⟨fun d found => ⟨d, found, .inl rfl⟩, id⟩

/-- A run ends alike if it does not tell letters apart. -/
theorem ends (alike : Alike xs ys) {p : Char → Bool}
    (letters : ∀ c d, c.isAlpha = true → d.isAlpha = true → p c = false → p d = false)
    (h : Ends p xs) : Ends p ys := by
  intro d found
  obtain ⟨c, before, rfl | ⟨alpha, alpha'⟩⟩ := alike.head d found
  · exact h c before
  · exact letters c d alpha alpha' (h c before)

/-- Names go on with letters, so one that ends does not stand before any. -/
theorem name (alike : Alike xs ys) (h : Ends continuesName xs) : Ends continuesName ys := by
  refine alike.ends ?_ h
  intro c d letter _ stops
  rw [continuesName_of_isAlpha letter] at stops
  cases stops

/-- Digits are no letters, so digits end before all of them. -/
theorem digits (alike : Alike xs ys) (h : Ends Char.isDigit xs) : Ends Char.isDigit ys := by
  refine alike.ends ?_ h
  intro c d _ letter _
  refine Bool.eq_false_iff.mpr fun digit => ?_
  rw [not_isAlpha_of_isDigit digit] at letter
  cases letter

/-- A character other than a letter does not come to follow. -/
theorem head_ne (alike : Alike xs ys) {d : Char} (symbol : d.isAlpha = false)
    (h : xs.head? ≠ some d) : ys.head? ≠ some d := by
  intro found
  obtain ⟨c, before, rfl | ⟨-, alpha⟩⟩ := alike.head d found
  · exact h before
  · rw [symbol] at alpha
    cases alpha

end Alike

/-- A lexeme may end before any text that begins alike. -/
theorem Munch.before {token : Token} {text xs ys : List Char} (munch : Munch ⟨token, text, xs⟩)
    (alike : Alike xs ys) : Munch ⟨token, text, ys⟩ := by
  cases munch with
  | word alpha goes ends => exact .word alpha goes (alike.name ends)
  | whole digits ends plain =>
      exact .whole digits (alike.digits ends) fun point => plain (alike.fraction point)
  | fraction digits decimals ends => exact .fraction digits decimals (alike.digits ends)
  | assign => exact .assign
  | arrow => exact .arrow
  | symbol notAlpha notDigit notAssign notArrow =>
      exact .symbol notAlpha notDigit (fun first => alike.head_ne (by decide) (notAssign first))
        fun first => alike.head_ne (by decide) (notArrow first)

/-! ### Renamed lexemes -/

namespace Relabel

variable (r : Relabel)

/-- The characters of a lexeme, or the new name if it is a name. -/
def lexemeText (l : Lexeme) : List Char :=
  match l.token with
  | .identifier name => (r.name name).toList
  | _ => l.text

/-- The characters with their names replaced. All else stays as it is. -/
def chars (cs : List Char) : List Char :=
  match found : (skipTrivia false .start cs).2 with
  | [] => cs
  | c :: rest =>
      have := length_rest_lt found
      cs.take (cs.length - (c :: rest).length) ++ r.lexemeText (lexeme c rest) ++
        chars (lexeme c rest).rest
termination_by cs.length

/-- The text with its names replaced. -/
def text (source : String) : String := String.ofList (r.chars source.toList)

theorem chars_nil {p : Position} {cs : List Char} (skipped : (skipTrivia false p cs).2 = []) :
    r.chars cs = cs := by
  have found := (skipTrivia_rest false .start p cs).trans skipped
  rw [chars]
  split
  · rfl
  · rename_i more
    rw [found] at more
    cases more

theorem chars_cons {p : Position} {gap rest : List Char} {c : Char}
    (skipped : (skipTrivia false p (gap ++ c :: rest)).2 = c :: rest) :
    r.chars (gap ++ c :: rest) =
      gap ++ r.lexemeText (lexeme c rest) ++ r.chars (lexeme c rest).rest := by
  have found := (skipTrivia_rest false .start p _).trans skipped
  rw [chars]
  split
  · rename_i none
    rw [found] at none
    cases none
  · rename_i some
    cases found.symm.trans some
    dsimp only
    rw [List.length_append, Nat.add_sub_cancel, List.take_left]

/-! ### Scanning the new text -/

/-- Names become names. -/
def KeepsNames : Prop := ∀ name, IsName name → IsName (r.name name)

variable {r}

theorem lexemeText_identifier {l : Lexeme} {name : String} (named : l.token = .identifier name) :
    r.lexemeText l = (r.name name).toList := by
  rw [lexemeText, named]

theorem lexemeText_other {l : Lexeme} (unnamed : ∀ name, l.token ≠ .identifier name) :
    r.lexemeText l = l.text := by
  rw [lexemeText]
  split
  · rename_i name named
    exact absurd named (unnamed name)
  · rfl

/-- A lexeme with a new name, before a text that begins alike. -/
theorem munch_relabel (names : r.KeepsNames) {l : Lexeme} (munch : Munch l) {rest : List Char}
    (alike : Alike l.rest rest) : Munch ⟨r.token l.token, r.lexemeText l, rest⟩ := by
  by_cases named : ∃ name, l.token = .identifier name
  · obtain ⟨name, named⟩ := named
    obtain ⟨isName, -, ends⟩ := munch.isName named
    rw [lexemeText_identifier named, named]
    exact (names name isName).munch (alike.name ends)
  · have unnamed (name : String) : l.token ≠ .identifier name := fun same => named ⟨name, same⟩
    rw [lexemeText_other unnamed, (r.token_eq_iff unnamed).mpr rfl]
    exact munch.before alike

/-- New names are on one line, as the old ones are. -/
theorem count_lexemeText (names : r.KeepsNames) {l : Lexeme} (munch : Munch l) :
    (r.lexemeText l).count '\n' = l.text.count '\n' := by
  by_cases named : ∃ name, l.token = .identifier name
  · obtain ⟨name, named⟩ := named
    obtain ⟨isName, text, -⟩ := munch.isName named
    rw [lexemeText_identifier named, text, isName.count_newline, (names name isName).count_newline]
  · rw [lexemeText_other fun name same => named ⟨name, same⟩]

/-- The first character of a lexeme stays, unless it begins a name: then there is a
letter before and after. -/
theorem head_lexemeText (names : r.KeepsNames) (c : Char) (cs : List Char) :
    ∃ c' more, r.lexemeText (lexeme c cs) = c' :: more ∧
      (c = c' ∨ c.isAlpha = true ∧ c'.isAlpha = true) := by
  have munch := lexeme_munch c cs
  by_cases named : ∃ name, (lexeme c cs).token = .identifier name
  · obtain ⟨name, named⟩ := named
    obtain ⟨isName, text, -⟩ := munch.isName named
    obtain ⟨-, first, run, same, alpha, -⟩ := isName
    obtain ⟨-, first', run', same', alpha', -⟩ := names name (munch.isName named).1
    have whole := lexeme_text_append c cs
    rw [text, same] at whole
    obtain ⟨rfl, -⟩ := List.cons.inj whole
    exact ⟨first', run', (lexemeText_identifier named).trans same', .inr ⟨alpha, alpha'⟩⟩
  · obtain ⟨more, text⟩ := lexeme_text_cons c cs
    exact ⟨c, more, (lexemeText_other fun name same => named ⟨name, same⟩).trans text, .inl rfl⟩

/-- A text begins like the text with new names. -/
theorem alike_chars (names : r.KeepsNames) (p : Position) (cs : List Char) :
    Alike cs (r.chars cs) := by
  induction p, cs using tokensFrom_induction with
  | nil p q cs skipped =>
      rw [r.chars_nil (congrArg Prod.snd skipped)]
      exact .refl cs
  | cons p q cs c rest skipped ih =>
      obtain ⟨gap, whole, -⟩ := skipTrivia_split false p cs
      rw [skipped] at whole
      subst whole
      have stops := congrArg Prod.snd skipped
      rw [r.chars_cons stops]
      cases gap with
      | nil =>
          obtain ⟨c', more, text, letters⟩ := head_lexemeText names c rest
          rw [text]
          constructor
          · rintro d ⟨⟩
            exact ⟨c, rfl, letters⟩
          · rintro ⟨d, _, same, digit⟩
            -- A point is a lexeme of its own, so the digit begins what follows it.
            obtain ⟨rfl, follows⟩ := List.cons.inj same
            obtain rfl : c = '.' := by
              rcases letters with same | ⟨-, alpha⟩
              · exact same
              · exact absurd alpha (by decide)
            obtain rfl : more = [] := (List.cons.inj text).2.symm
            obtain ⟨e, begins, rfl | ⟨-, alpha⟩⟩ := ih.head d (congrArg List.head? follows)
            · obtain ⟨tail, rfl⟩ := List.head?_eq_some_iff.mp begins
              exact ⟨e, tail, rfl, digit⟩
            · rw [not_isAlpha_of_isDigit digit] at alpha
              cases alpha
      | cons d gap =>
          refine ⟨fun d' found => ⟨d', found, .inl rfl⟩, ?_⟩
          rintro ⟨d', _, same, -⟩
          obtain ⟨rfl, -⟩ := List.cons.inj same
          have point : isBlank '.' = false ∧ '.' ≠ '#' := by decide
          rw [List.cons_append, skipTrivia_solid point.1 point.2] at stops
          have lengths := congrArg List.length stops
          simp only [List.length_cons, List.length_append] at lengths
          omega

/-- The new tokens stand on the lines of the old ones. -/
theorem tokensFrom_chars (names : r.KeepsNames) (p : Position) (cs : List Char) {p' : Position}
    (line : p'.line = p.line) :
    (tokensFrom p' (r.chars cs)).map (fun t => (t.token, t.line)) =
      (tokensFrom p cs).map fun t => (r.token t.token, t.line) := by
  induction p, cs using tokensFrom_induction generalizing p' with
  | nil p q cs skipped =>
      obtain ⟨gap, rest, -, skips⟩ := skipTrivia_everywhere false cs
      obtain ⟨rfl, rfl⟩ := Prod.mk.inj ((skips p).symm.trans skipped)
      have ended : (p'.afterAll gap).line = (p.afterAll gap).line :=
        Position.line_afterAll_congr line rfl
      rw [r.chars_nil (congrArg Prod.snd skipped), tokensFrom_nil skipped,
        tokensFrom_nil (skips p')]
      exact congrArg (fun n => [(Token.endOfFile, n)]) ended
  | cons p q cs c rest skipped ih =>
      obtain ⟨gap, _, rfl, skips⟩ := skipTrivia_everywhere false cs
      obtain ⟨rfl, rfl⟩ := Prod.mk.inj ((skips p).symm.trans skipped)
      have stops (p : Position) := congrArg Prod.snd (skips p)
      obtain ⟨c', more, text, letters⟩ := head_lexemeText names c rest
      have solid : isBlank c' = false ∧ c' ≠ '#' := by
        rcases letters with rfl | ⟨-, alpha⟩
        · exact skipTrivia_stop (stops p)
        · exact solid_of_continuesName (continuesName_of_isAlpha alpha)
      have munch := munch_relabel names (lexeme_munch c rest) (alike_chars names .start _)
      have chars : r.chars (gap ++ c :: rest) =
          gap ++ c' :: (more ++ r.chars (lexeme c rest).rest) := by
        rw [r.chars_cons (stops p), text, List.append_assoc, List.cons_append]
      have started : (p'.afterAll gap).line = (p.afterAll gap).line :=
        Position.line_afterAll_congr line rfl
      have ended := Position.line_afterAll_congr started
        (count_lexemeText names (lexeme_munch c rest))
      rw [tokensFrom_cons skipped, chars,
        tokensFrom_cons (skipTrivia_gap (stops p') solid.1 solid.2 _), munch.lexeme text,
        List.map_cons, List.map_cons, ih ended]
      exact congrArg (fun n => (_, n) :: _) started

/-- The text with new names has the new tokens, on the same lines. -/
theorem scan_text (names : r.KeepsNames) (source : String) :
    (scan (r.text source)).map (fun t => (t.token, t.line)) =
      (scan source).map fun t => (r.token t.token, t.line) := by
  rw [scan_eq, scan_eq, text, String.toList_ofList]
  exact tokensFrom_chars names .start source.toList rfl

end Relabel

end PolyCalc
