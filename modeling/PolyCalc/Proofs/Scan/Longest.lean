import PolyCalc.Proofs.Scan.Munch

/-!
Tokens and the text they stand for.

A lexeme is the text of a name, a literal or a fixed token. Where one starts, the
scanner takes the longest, and a stray character where none does
(`lexeme_longest`), and nothing else reads in this way (`longestAt_iff`). A token is
printed as the text that it was scanned from (`Munch.text_eq`), so the tokens of a
text are found again when they are printed with spaces between them (`scan_reprint`).
-/

namespace PolyCalc

/-! ### Texts of tokens -/

/-- One character is printed as itself. -/
theorem symbolToken_text (c : Char) : (symbolToken c).text.toList = [c] := by
  unfold symbolToken
  split
  case h_15 => exact String.toList_singleton c
  all_goals decide

theorem wordToken_text (word : List Char) : (wordToken word).text.toList = word := by
  unfold wordToken
  split
  · rename_i keyword
    rw [keyword]
    decide
  · exact String.toList_ofList

/-- A token is printed as it is written. -/
theorem Munch.text_eq {l : Lexeme} (munch : Munch l) : l.token.text.toList = l.text := by
  cases munch with
  | word => exact wordToken_text _
  | whole | fraction => exact String.toList_ofList
  | assign | arrow => dsimp only; decide
  | symbol => exact symbolToken_text _

theorem symbolToken_legible (c : Char) : (symbolToken c).Legible ∨ symbolToken c = .stray c := by
  unfold symbolToken
  split
  case h_15 => exact .inr rfl
  all_goals exact .inl trivial

/-- Whatever is scanned is a stray character or a token that can be written. -/
theorem Munch.legible {l : Lexeme} (munch : Munch l) :
    l.token.Legible ∨ ∃ c, l.token = .stray c := by
  cases munch with
  | @word c run rest alpha goes ends =>
      refine .inl ?_
      dsimp only
      unfold wordToken
      split
      · trivial
      · rename_i notKeyword
        refine ⟨?_, c, run, String.toList_ofList, alpha, goes⟩
        intro keyword
        exact notKeyword (String.ofList_injective keyword)
  | whole digits => exact .inl (.inl (String.toList_ofList ▸ digits))
  | fraction digits decimals =>
      exact .inl (.inr ⟨_, _, digits, decimals, String.toList_ofList⟩)
  | assign | arrow => exact .inl trivial
  | @symbol c => exact (symbolToken_legible c).imp id fun stray => ⟨c, stray⟩

/-! ### The longest lexeme -/

/-- The token could be read at the start of the characters. -/
def Token.StartsAt (t : Token) (cs : List Char) : Prop := t.Legible ∧ t.text.toList <+: cs

/-- The digits of a number are part of it. -/
theorem digits_le_splitNumber (cs : List Char) :
    cs.takeWhile Char.isDigit <+: (splitNumber cs).1 := by
  unfold splitNumber
  split
  · split
    · exact List.prefix_append ..
    · exact List.prefix_refl _
  · exact List.prefix_refl _

/-- More text after a lexeme does not make it shorter. -/
theorem lexeme_text_le {c : Char} {cs : List Char} (whole : (lexeme c cs).rest = [])
    (more : List Char) : (c :: cs).length ≤ (lexeme c (cs ++ more)).text.length := by
  have text := lexeme_text_append c cs
  rw [whole, List.append_nil] at text
  have munch := lexeme_munch c cs
  generalize lexeme c cs = l at munch text whole
  cases munch with
  | @word first run rest alpha goes ends =>
      cases text
      simp only [lexeme, alpha, if_true, List.takeWhile_append_of_pos goes, List.length_cons,
        List.length_append]
      omega
  | @whole digits rest isDigits =>
      cases text
      have digit := isDigits.2 c List.mem_cons_self
      rw [lexeme_number digit rfl]
      have taken := (digits_le_splitNumber (c :: cs ++ more)).length_le
      rw [List.takeWhile_append_of_pos isDigits.2, List.length_append] at taken
      exact Nat.le_trans (Nat.le_add_right ..) taken
  | @fraction digits decimals rest isDigits isDecimals =>
      obtain ⟨d, decimals, rfl⟩ := List.exists_cons_of_ne_nil isDecimals.1
      have split := splitNumber_fraction (@dropWhile_point _ (d :: (decimals ++ more)) isDigits)
        (isDecimals.2 d List.mem_cons_self)
      rw [takeWhile_point isDigits, ← List.cons_append,
        List.takeWhile_append_of_pos isDecimals.2] at split
      have written : c :: (cs ++ more) = digits ++ '.' :: (d :: decimals ++ more) := by
        rw [← List.cons_append, ← text]
        simp
      rw [← written] at split
      obtain ⟨first, digits, rfl⟩ := List.exists_cons_of_ne_nil isDigits.1
      obtain ⟨rfl, -⟩ := List.cons.inj written
      rw [lexeme_number (isDigits.2 c List.mem_cons_self) split, ← text]
      simp only [List.length_append, List.length_cons]
      omega
  | assign =>
      cases text
      exact Nat.le_refl _
  | arrow =>
      cases text
      exact Nat.le_refl _
  | symbol =>
      cases text
      exact List.length_pos_iff.mpr (lexeme_munch c more).text_ne_nil

/-- What starts no lexeme starts none before less text either. -/
theorem lexeme_stray {c d : Char} {cs more : List Char}
    (stray : (lexeme c (cs ++ more)).token = .stray d) : (lexeme c cs).token = .stray d := by
  have text := lexeme_text_append c (cs ++ more)
  have munch := lexeme_munch c (cs ++ more)
  generalize lexeme c (cs ++ more) = l at munch text stray
  cases munch with
  | @word first run rest alpha goes ends =>
      have word : wordToken (first :: run) = .stray d := stray
      unfold wordToken at word
      split at word <;> cases word
  | whole | fraction | assign | arrow => cases stray
  | symbol notAlpha notDigit notAssign notArrow =>
      cases text
      rw [lexeme_symbol notAlpha notDigit]
      · exact stray
      · rintro rest first rfl
        exact notAssign first rfl
      · rintro rest first rfl
        exact notArrow first rfl

/-- A token that could be read is all there is to read if its text is all there is. -/
theorem Token.StartsAt.alone {t : Token} {c : Char} {cs : List Char}
    (starts : t.StartsAt (c :: cs)) :
    ∃ run more, cs = run ++ more ∧ t.text.toList = c :: run ∧ lexeme c run = ⟨t, c :: run, []⟩ := by
  obtain ⟨legible, more, written⟩ := starts
  obtain ⟨first, run, text, -, -, alone⟩ := legible.reads
  rw [text] at written
  obtain ⟨rfl, rest⟩ := List.cons.inj written
  exact ⟨run, more, rest.symm, text, alone⟩

/-- The token is the longest that could be read at the start of `here`, and `after` does
not go on with it. It is a stray character only if none could be read. -/
structure Token.Longest (t : Token) (here after : List Char) : Prop where
  longest : (∀ c, t ≠ .stray c) → t.StartsAt here ∧
    ∀ u : Token, u.StartsAt here → u.text.length ≤ t.text.length
  stray : (∃ c, t = .stray c) ↔ ∀ u : Token, ¬ u.StartsAt here
  keyword : t = .var ↔ t.text = "var"
  word : (t = .var ∨ ∃ name, t = .identifier name) → Ends continuesName after
  number : ∀ literal, t = .number literal →
    Ends Char.isDigit after ∧ ('.' ∉ literal.toList → ¬ StartsFraction after)
  minus : t = .minus → after.head? ≠ some '>'

section

variable (c : Char) (cs : List Char)

theorem lexeme_startsAt (legible : (lexeme c cs).token.Legible) :
    (lexeme c cs).token.StartsAt (c :: cs) := by
  refine ⟨legible, ?_⟩
  rw [(lexeme_munch c cs).text_eq, ← lexeme_text_append c cs]
  exact List.prefix_append ..

theorem length_le_lexeme {u : Token} (starts : u.StartsAt (c :: cs)) :
    u.text.length ≤ (lexeme c cs).token.text.length := by
  obtain ⟨run, more, rfl, text, alone⟩ := starts.alone
  rw [← String.length_toList, ← String.length_toList, (lexeme_munch c _).text_eq, text]
  exact lexeme_text_le (congrArg Lexeme.rest alone) more

theorem lexeme_stray_iff :
    (∃ d, (lexeme c cs).token = .stray d) ↔ ∀ u : Token, ¬ u.StartsAt (c :: cs) := by
  constructor
  · rintro ⟨d, stray⟩ u starts
    obtain ⟨run, more, rfl, -, alone⟩ := starts.alone
    have same : u = .stray d := by
      rw [← lexeme_stray stray, alone]
    have legible := starts.1
    rw [same] at legible
    exact legible
  · intro none
    rcases (lexeme_munch c cs).legible with legible | stray
    · exact absurd (lexeme_startsAt c cs legible) (none _)
    · exact stray

/-- Only the whole word `var` is the keyword. -/
theorem lexeme_var_iff : (lexeme c cs).token = .var ↔ (lexeme c cs).token.text = "var" := by
  constructor
  · intro keyword
    rw [keyword]
    rfl
  · intro text
    have written := (lexeme_munch c cs).text_eq
    have whole := lexeme_text_append c cs
    rw [← written, text] at whole
    obtain rfl : c = 'v' := (List.cons.inj whole).1.symm
    have word : (lexeme 'v' cs).token = wordToken (lexeme 'v' cs).text := rfl
    rw [word, ← written, text]
    rfl

theorem symbolToken_eq {c : Char} {t : Token} (same : symbolToken c = t) : t.text.toList = [c] :=
  same ▸ symbolToken_text c

/-- A word does not go on after its token. -/
theorem Munch.word_ends {l : Lexeme} (munch : Munch l)
    (word : l.token = .var ∨ ∃ name, l.token = .identifier name) : Ends continuesName l.rest := by
  rcases word with keyword | ⟨name, named⟩
  · cases munch with
    | word _ _ ends => exact ends
    | whole | fraction | assign | arrow => cases keyword
    | symbol => cases symbolToken_eq keyword
  · exact (munch.isName named).2.2

/-- A number takes all digits, and a point with all digits after it. -/
theorem Munch.number_ends {l : Lexeme} (munch : Munch l) {literal : String}
    (number : l.token = .number literal) :
    Ends Char.isDigit l.rest ∧ ('.' ∉ literal.toList → ¬ StartsFraction l.rest) := by
  cases munch with
  | @word c run =>
      have word : wordToken (c :: run) = .number literal := number
      unfold wordToken at word
      split at word <;> cases word
  | whole _ ends plain => exact ⟨ends, fun _ => plain⟩
  | fraction _ _ ends =>
      cases number
      refine ⟨ends, fun noPoint => absurd ?_ noPoint⟩
      rw [String.toList_ofList]
      exact List.mem_append_right _ List.mem_cons_self
  | assign | arrow => cases number
  | @symbol c =>
      have symbol : symbolToken c = .number literal := number
      unfold symbolToken at symbol
      split at symbol <;> cases symbol

/-- A minus sign is not the start of an arrow. -/
theorem Munch.minus_ends {l : Lexeme} (munch : Munch l) (minus : l.token = .minus) :
    l.rest.head? ≠ some '>' := by
  cases munch with
  | @word c run =>
      have word : wordToken (c :: run) = .minus := minus
      unfold wordToken at word
      split at word <;> cases word
  | whole | fraction | assign | arrow => cases minus
  | symbol _ _ _ notArrow =>
      obtain ⟨rfl, -⟩ := List.cons.inj (symbolToken_eq minus)
      exact notArrow rfl

/-- The scanner takes the longest lexeme, or a character that starts none. -/
theorem lexeme_longest : (lexeme c cs).token.Longest (c :: cs) (lexeme c cs).rest := by
  have munch := lexeme_munch c cs
  constructor
  · intro token
    have legible := munch.legible.resolve_right fun ⟨d, stray⟩ => token d stray
    exact ⟨lexeme_startsAt c cs legible, fun _ => length_le_lexeme c cs⟩
  · exact lexeme_stray_iff c cs
  · exact lexeme_var_iff c cs
  · exact munch.word_ends
  · exact fun _ => munch.number_ends
  · exact munch.minus_ends

end

/-- Tokens of the same length at one place are the same, since the text of a token tells
which one it is. -/
theorem Token.StartsAt.eq_of_length {t u : Token} {c : Char} {cs : List Char}
    (starts : t.StartsAt (c :: cs)) (other : u.StartsAt (c :: cs))
    (length : t.text.length = u.text.length) : t = u := by
  rw [← String.length_toList, ← String.length_toList] at length
  have begins := List.prefix_of_prefix_length_le starts.2 other.2 (Nat.le_of_eq length)
  have texts := begins.eq_of_length length
  obtain ⟨run, -, -, text, alone⟩ := starts.alone
  obtain ⟨run', -, -, text', alone'⟩ := other.alone
  obtain ⟨-, rfl⟩ := List.cons.inj (text.symm.trans (texts.trans text'))
  exact congrArg Lexeme.token (alone.symm.trans alone')

/-- What is to be read at the start of `here`: the longest token that could be, and a stray
character where there is none. The lexeme has the text of its token, and leaves the rest. -/
structure Lexeme.LongestAt (l : Lexeme) (here : List Char) : Prop where
  text : l.text = l.token.text.toList
  whole : l.text ++ l.rest = here
  longest : ∀ u : Token, u.StartsAt here →
    l.token.Legible ∧ u.text.length ≤ l.token.text.length
  stray : (∀ u : Token, ¬ u.StartsAt here) → ∃ c, l.token = .stray c

/-- Only one lexeme is the longest. -/
theorem Lexeme.LongestAt.unique {l l' : Lexeme} {c : Char} {cs : List Char}
    (h : l.LongestAt (c :: cs)) (h' : l'.LongestAt (c :: cs)) : l = l' := by
  have token : l.token = l'.token := by
    by_cases none : ∀ u : Token, ¬ u.StartsAt (c :: cs)
    · -- Both are the character that stands there.
      have found {l : Lexeme} (h : l.LongestAt (c :: cs)) : l.token = .stray c := by
        obtain ⟨d, stray⟩ := h.stray none
        have text : (Token.stray d).text.toList = [d] := String.toList_singleton d
        have whole := h.whole
        rw [h.text, stray, text] at whole
        rw [stray, (List.cons.inj whole).1]
      rw [found h, found h']
    · obtain ⟨u, starts⟩ := Classical.not_forall_not.mp none
      have startsAt {l : Lexeme} (h : l.LongestAt (c :: cs)) : l.token.StartsAt (c :: cs) :=
        ⟨(h.longest u starts).1, l.rest, h.text ▸ h.whole⟩
      refine (startsAt h).eq_of_length (startsAt h') ?_
      exact Nat.le_antisymm (h'.longest _ (startsAt h)).2 (h.longest _ (startsAt h')).2
  have text : l.text = l'.text := by rw [h.text, h'.text, token]
  have rest : l.rest = l'.rest := by
    have whole := h.whole.trans h'.whole.symm
    rw [text] at whole
    exact List.append_cancel_left whole
  calc l
    _ = ⟨l.token, l.text, l.rest⟩ := rfl
    _ = ⟨l'.token, l'.text, l'.rest⟩ := by rw [token, text, rest]
    _ = l' := rfl

/-- Whatever reads the longest token at every place, and a stray character where there is none,
is the scanner's way to read. -/
theorem longestAt_iff {l : Lexeme} {c : Char} {cs : List Char} :
    l.LongestAt (c :: cs) ↔ l = lexeme c cs := by
  have munch := lexeme_munch c cs
  have longest : (lexeme c cs).LongestAt (c :: cs) := by
    refine ⟨munch.text_eq.symm, lexeme_text_append c cs, fun u starts => ?_,
      (lexeme_stray_iff c cs).mpr⟩
    have legible := munch.legible.resolve_right
      fun stray => (lexeme_stray_iff c cs).mp stray u starts
    exact ⟨legible, length_le_lexeme c cs starts⟩
  exact ⟨fun h => h.unique longest, fun same => same ▸ longest⟩

/-! ### Printing and scanning again -/

/-- What is scanned at the start of a token is found again in its text alone. -/
theorem lexeme_reads {c : Char} (notBlank : isBlank c = false) (noComment : c ≠ '#')
    (cs : List Char) : (lexeme c cs).token.Reads := by
  rcases (lexeme_munch c cs).legible with legible | ⟨d, stray⟩
  · exact legible.reads
  · -- The text of a stray character is the character that was found.
    have token : (lexeme c []).token = .stray d := @lexeme_stray c d [] cs stray
    obtain ⟨more, text⟩ := lexeme_text_cons c []
    have whole := lexeme_text_append c []
    rw [text, List.cons_append] at whole
    obtain ⟨rfl, rest⟩ := List.append_eq_nil_iff.mp (List.cons.inj whole).2
    rw [stray]
    refine ⟨c, [], ?_, notBlank, noComment, ?_⟩
    · rw [← token, (lexeme_munch c []).text_eq, text]
    · calc lexeme c []
        _ = ⟨(lexeme c []).token, (lexeme c []).text, (lexeme c []).rest⟩ := rfl
        _ = ⟨.stray d, [c], []⟩ := by rw [token, text, rest]

/-- Every token of a text but its end is found again in its own text. -/
theorem tokensFrom_reads (p : Position) (cs : List Char) :
    ∀ t ∈ tokensFrom p cs, t.token ≠ .endOfFile → t.token.Reads := by
  induction p, cs using tokensFrom_induction with
  | nil p q cs skipped =>
      rw [tokensFrom_nil skipped]
      intro t member more
      obtain rfl := List.mem_singleton.mp member
      exact absurd rfl more
  | cons p q cs c rest skipped ih =>
      have solid := skipTrivia_stop (congrArg Prod.snd skipped)
      rw [tokensFrom_cons skipped]
      exact List.forall_mem_cons.mpr ⟨fun _ => lexeme_reads solid.1 solid.2 rest, ih⟩

/-- The tokens of a text, stray characters included, are the tokens of their own texts
with spaces between them. So are names, literals and fixed tokens in any order. -/
theorem scan_reprint (source : String) :
    (∃ ts, (scan source).map Located.token = ts ++ [.endOfFile] ∧ Token.endOfFile ∉ ts ∧
      (scan (spaced ts)).map Located.token = ts ++ [.endOfFile]) ∧
    ∀ ts : List Token, (∀ t ∈ ts, t.Legible) →
      (scan (spaced ts)).map Located.token = ts ++ [.endOfFile] := by
  constructor
  · obtain ⟨words, q, scanned, -, proper⟩ := scan_words source
    refine ⟨words.map Located.token, ?_, ?_, scan_spaced ?_⟩
    · rw [scanned, List.map_append]
      rfl
    · intro ended
      obtain ⟨t, member, same⟩ := List.mem_map.mp ended
      exact proper t member same
    · intro t printed
      obtain ⟨word, member, rfl⟩ := List.mem_map.mp printed
      have found : word ∈ tokensFrom .start source.toList := by
        rw [← scan_eq, scanned]
        exact List.mem_append_left _ member
      exact tokensFrom_reads _ _ word found (proper word member)
  · intro ts legible
    exact scan_spaced fun t member => (legible t member).reads

/-- A keyword, an arrow that could be a minus sign, a name and a literal with a point. -/
theorem scan_reprint_declaration :
    (∀ t ∈ [Token.var, .arrow, .identifier "var_1", .number "1.5"], t.Legible) ∧
      (scan (spaced [.var, .arrow, .identifier "var_1", .number "1.5"])).map Located.token =
        [.var, .arrow, .identifier "var_1", .number "1.5", .endOfFile] := by
  have legible : ∀ t ∈ [Token.var, .arrow, .identifier "var_1", .number "1.5"], t.Legible := by
    have name : IsName "var_1" :=
      ⟨by decide, 'v', ['a', 'r', '_', '1'], by decide, by decide, List.all_eq_true.mp (by decide)⟩
    have digit {c : Char} (isDigit : c.isDigit = true) : IsDigits [c] :=
      ⟨List.cons_ne_nil c [], List.forall_mem_singleton.mpr isDigit⟩
    have literal : IsLiteral "1.5" :=
      .inr ⟨['1'], ['5'], digit (by decide), digit (by decide), by decide⟩
    intro t member
    simp only [List.mem_cons, List.not_mem_nil, or_false] at member
    rcases member with rfl | rfl | rfl | rfl
    · trivial
    · trivial
    · exact name
    · exact literal
  exact ⟨legible, (scan_reprint "").2 _ legible⟩

end PolyCalc
