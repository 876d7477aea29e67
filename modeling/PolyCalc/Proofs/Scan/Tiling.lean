import PolyCalc.Proofs.Scan.Longest
import PolyCalc.Proofs.Scan.Places

/-!
Nothing of a text is lost.

Reading until the end of the text comes to an end, and the tokens that it finds lie
in the text one after the other. `Tiles` says how: each token stands in the bytes
that the scanner passed for it, what lies between two tokens is a `Gap` of blanks
and comments, no token starts inside of a gap, and every token is the longest that
could be read where it starts.

Main statement: the tokens of a text tile it (`scan_tiles`).
-/

namespace PolyCalc

/-! ### Gaps -/

/-- Blanks and comments. A comment runs up to a newline, or to the end of the last
gap of a text. -/
inductive Gap (last : Prop) : List Char → Prop where
  | nil : Gap last []
  | blank {c : Char} {cs : List Char} : isBlank c = true → Gap last cs → Gap last (c :: cs)
  | comment {body cs : List Char} : '\n' ∉ body → Gap last cs →
      Gap last ('#' :: (body ++ '\n' :: cs))
  | unended {body : List Char} : last → '\n' ∉ body → Gap last ('#' :: body)

theorem Gap.mono {last last' : Prop} {cs : List Char} (gap : Gap last cs) (implies : last → last') :
    Gap last' cs := by
  induction gap with
  | nil => exact .nil
  | blank blank _ ih => exact .blank blank ih
  | comment body _ ih => exact .comment body ih
  | unended ended body => exact .unended (implies ended) body

/-- What is skipped from within a comment: the rest of its line and a gap, or everything
if no line follows. -/
def CommentGap (last : Prop) (cs : List Char) : Prop :=
  (last ∧ '\n' ∉ cs) ∨ ∃ body gap, cs = body ++ '\n' :: gap ∧ '\n' ∉ body ∧ Gap last gap

theorem CommentGap.gap {last : Prop} {cs : List Char} (h : CommentGap last cs) :
    Gap last ('#' :: cs) := by
  rcases h with ⟨ended, line⟩ | ⟨body, gap, rfl, line, rest⟩
  · exact .unended ended line
  · exact .comment line rest

/-- A comment goes on with any character but a newline. -/
theorem CommentGap.cons {last : Prop} {c : Char} {cs : List Char} (newline : c ≠ '\n')
    (h : CommentGap last cs) : CommentGap last (c :: cs) := by
  have line {body : List Char} (line : '\n' ∉ body) : '\n' ∉ c :: body := by
    rw [List.mem_cons, not_or]
    exact ⟨newline.symm, line⟩
  rcases h with ⟨ended, rest⟩ | ⟨body, gap, rfl, rest, later⟩
  · exact .inl ⟨ended, line rest⟩
  · exact .inr ⟨c :: body, gap, rfl, line rest, later⟩

/-- Only a gap is skipped, by induction on the characters in and out of comments. -/
theorem skipTrivia_skips (p : Position) (cs : List Char) :
    (∃ gap, cs = gap ++ (skipTrivia false p cs).2 ∧ Gap ((skipTrivia false p cs).2 = []) gap) ∧
    ∃ gap, cs = gap ++ (skipTrivia true p cs).2 ∧
      CommentGap ((skipTrivia true p cs).2 = []) gap := by
  induction cs generalizing p with
  | nil => exact ⟨⟨[], rfl, .nil⟩, [], rfl, .inl ⟨rfl, List.not_mem_nil⟩⟩
  | cons c cs ih =>
      obtain ⟨⟨gap, plain, isGap⟩, rest, within, isRest⟩ := ih (p.after c)
      constructor
      · simp only [skipTrivia, Bool.false_eq_true, if_false]
        split
        · rename_i blank
          exact ⟨c :: gap, congrArg (c :: ·) plain, .blank blank isGap⟩
        split
        · rename_i opens
          obtain rfl := beq_iff_eq.mp opens
          exact ⟨'#' :: rest, congrArg ('#' :: ·) within, isRest.gap⟩
        · exact ⟨[], rfl, .nil⟩
      · simp only [skipTrivia, if_true]
        by_cases newline : c = '\n'
        · subst newline
          exact ⟨'\n' :: gap, congrArg ('\n' :: ·) plain,
            .inr ⟨[], gap, rfl, List.not_mem_nil, isGap⟩⟩
        · rw [bne_iff_ne.mpr newline]
          exact ⟨c :: rest, congrArg (c :: ·) within, isRest.cons newline⟩

/-- What a read skips is a gap, the last one if nothing is left. -/
theorem Gap.of_skipTrivia {p q : Position} {cs gap rest : List Char} (whole : cs = gap ++ rest)
    (skipped : skipTrivia false p cs = (q, rest)) : Gap (rest = []) gap := by
  obtain ⟨⟨gap', whole', isGap⟩, -⟩ := skipTrivia_skips p cs
  rw [skipped] at whole' isGap
  rw [whole] at whole'
  rwa [List.append_cancel_right whole']

/-! ### Reading to the end -/

namespace Scanner

/-- Reading until the end of the text: the scanner after each token, and at the end. -/
inductive ReadsToEnd : Scanner → List Scanner → Scanner → Prop where
  | last {s : Scanner} : s.read.token = .endOfFile → ReadsToEnd s [] s.read
  | next {s last : Scanner} {reads : List Scanner} : s.read.token ≠ .endOfFile →
      ReadsToEnd s.read reads last → ReadsToEnd s (s.read :: reads) last

/-- Every read but the last uses up some of the text, so there is a last one. -/
theorem readsToEnd (s : Scanner) : ∃ reads last, s.ReadsToEnd reads last ∧
    s.tokens = reads.map located ++ [last.located] := by
  induction length : s.rest.length using Nat.strongRecOn generalizing s with
  | ind n ih =>
      rw [tokens]
      split
      · rename_i ended
        exact ⟨[], s.read, .last ended, rfl⟩
      · rename_i more
        obtain ⟨reads, last, rest, tokens⟩ := ih _ (length ▸ length_read_rest_lt more) s.read rfl
        exact ⟨s.read :: reads, last, .next more rest, by rw [tokens]; rfl⟩

theorem ReadsToEnd.token_last {s last : Scanner} {reads : List Scanner}
    (reading : s.ReadsToEnd reads last) : last.token = .endOfFile := by
  induction reading with
  | last ended => exact ended
  | next _ _ ih => exact ih

end Scanner

/-! ### Tiles -/

/-- A token and the bytes that it takes up, from `start` up to `stop`. -/
structure Span where
  token : Token
  start : Nat
  stop : Nat
deriving DecidableEq, Repr

/-- The last token of the scanner: the caret is behind it. -/
def Scanner.span (s : Scanner) : Span := ⟨s.token, s.start.offset, s.position.offset⟩

/-- What lies between the tokens, from an offset on up to the size of the text. -/
def gapsFrom (offset size : Nat) : List Span → List (Nat × Nat)
  | [] => [(offset, size)]
  | x :: xs => (offset, x.start) :: gapsFrom x.stop size xs

/-- The tokens cover the text from an offset on, in order and with gaps only between
them. The gaps are as long as they can be, and each token is the longest where it starts. -/
structure Tiles (source : String) (offset : Nat) (spans : List Span) : Prop where
  from_le : ∀ x ∈ spans, offset ≤ x.start
  solid : ∀ x ∈ spans, x.start < x.stop
  within : ∀ x ∈ spans, x.stop ≤ source.utf8ByteSize
  ordered : spans.Pairwise fun x y => x.stop ≤ y.start
  text : ∀ x ∈ spans, between source x.start x.stop = x.token.text
  gaps : ∀ g ∈ gapsFrom offset source.utf8ByteSize spans,
    Gap (g.2 = source.utf8ByteSize) (between source g.1 g.2).toList
  opens : ∀ x ∈ spans, ∃ c cs, (between source x.start x.stop).toList = c :: cs ∧
    isBlank c = false ∧ c ≠ '#'
  longest : ∀ x ∈ spans, x.token.Longest (between source x.start source.utf8ByteSize).toList
    (between source x.stop source.utf8ByteSize).toList

namespace Tiles

variable {source : String} {offset : Nat}

theorem nil (gap : Gap True (between source offset source.utf8ByteSize).toList) :
    Tiles source offset [] := by
  constructor
  case ordered => exact .nil
  case gaps =>
    intro g member
    obtain rfl := List.mem_singleton.mp member
    exact gap.mono fun _ => rfl
  all_goals exact fun _ member => nomatch member

/-- One more token in front, with a gap before it. -/
theorem cons {x : Span} {xs : List Span} (tiles : Tiles source x.stop xs)
    (from_le : offset ≤ x.start) (solid : x.start < x.stop)
    (within : x.stop ≤ source.utf8ByteSize)
    (text : between source x.start x.stop = x.token.text)
    (gap : Gap False (between source offset x.start).toList)
    (opens : ∃ c cs, (between source x.start x.stop).toList = c :: cs ∧
      isBlank c = false ∧ c ≠ '#')
    (longest : x.token.Longest (between source x.start source.utf8ByteSize).toList
      (between source x.stop source.utf8ByteSize).toList) : Tiles source offset (x :: xs) := by
  constructor
  · refine List.forall_mem_cons.mpr ⟨from_le, fun y member => ?_⟩
    have later := tiles.from_le y member
    omega
  · exact List.forall_mem_cons.mpr ⟨solid, tiles.solid⟩
  · exact List.forall_mem_cons.mpr ⟨within, tiles.within⟩
  · exact List.pairwise_cons.mpr ⟨tiles.from_le, tiles.ordered⟩
  · exact List.forall_mem_cons.mpr ⟨text, tiles.text⟩
  · exact List.forall_mem_cons.mpr ⟨gap.mono False.elim, tiles.gaps⟩
  · exact List.forall_mem_cons.mpr ⟨opens, tiles.opens⟩
  · exact List.forall_mem_cons.mpr ⟨longest, tiles.longest⟩

end Tiles

/-! ### The tokens of a text -/

namespace Scanner

variable {source : String} {s : Scanner} {before passed : List Char}

theorem Splits.between_token (splits : s.Splits source before passed) :
    between source s.start.offset s.position.offset = String.ofList passed := by
  rw [splits.start_offset, splits.offset]
  exact between_eq splits.text

theorem Splits.between_here (splits : s.Splits source before passed) :
    between source s.start.offset source.utf8ByteSize = String.ofList (passed ++ s.rest) := by
  rw [splits.start_offset, ← String.utf8Len_toList, splits.text, List.append_assoc]
  refine @between_eq source before (passed ++ s.rest) [] ?_
  rw [splits.text, List.append_nil, List.append_assoc]

theorem Splits.between_rest (splits : s.Splits source before passed) :
    between source s.position.offset source.utf8ByteSize = String.ofList s.rest := by
  rw [splits.offset, ← String.utf8Len_toList, splits.text]
  refine @between_eq source (before ++ passed) s.rest [] ?_
  rw [splits.text, List.append_nil]

theorem Splits.between_gap {s' : Scanner} {gap text : List Char}
    (splits : s.Splits source before passed)
    (later : s'.Splits source (before ++ passed ++ gap) text) :
    between source s.position.offset s'.start.offset = String.ofList gap := by
  rw [splits.offset, later.start_offset]
  refine @between_eq source (before ++ passed) gap (text ++ s'.rest) ?_
  rw [later.text, List.append_assoc (before ++ passed ++ gap)]

theorem Splits.start_lt (splits : s.Splits source before passed) (some : passed ≠ []) :
    s.start.offset < s.position.offset := by
  have bytes := mt String.utf8Len_eq_zero.mp some
  rw [splits.start_offset, splits.offset, String.utf8Len_append before]
  omega

/-- A read that finds a token splits the text at a gap, which does not go on, and a lexeme. -/
theorem Splits.read_token (splits : s.Splits source before passed)
    (more : s.read.token ≠ .endOfFile) :
    ∃ gap c cs, Gap False gap ∧ (isBlank c = false ∧ c ≠ '#') ∧
      s.read.token = (lexeme c cs).token ∧
      s.read.rest = (lexeme c cs).rest ∧
      s.read.Splits source (before ++ passed ++ gap) (lexeme c cs).text := by
  obtain ⟨gap, rest, whole, skipped, start, found | found⟩ := s.read_cases
  · exact absurd found.2.1 more
  · obtain ⟨c, cs, rfl, token, rest, position, -⟩ := found
    have isGap : Gap False gap := (Gap.of_skipTrivia whole skipped).mono fun none => nomatch none
    have solid := skipTrivia_stop (congrArg Prod.snd skipped)
    refine ⟨gap, c, cs, isGap, solid, token, rest, splits.jump ?_ start ?_⟩
    · rw [whole, rest, List.append_assoc, lexeme_text_append]
    · rw [position, Position.afterAll_append]

/-- A read that finds the end of the text has passed a last gap. -/
theorem Splits.read_end (splits : s.Splits source before passed)
    (ended : s.read.token = .endOfFile) :
    Gap True s.rest ∧ s.read.start.offset = source.utf8ByteSize := by
  obtain ⟨gap, rest, whole, skipped, start, found | found⟩ := s.read_cases
  · obtain ⟨rfl, -⟩ := found
    have isGap := Gap.of_skipTrivia whole skipped
    rw [List.append_nil] at whole
    constructor
    · rw [whole]
      exact isGap.mono fun _ => trivial
    · rw [start, Position.offset_afterAll, ← whole, splits.size]
  · obtain ⟨c, cs, -, token, -⟩ := found
    exact absurd (token.symm.trans ended) (lexeme_token_ne c cs)

/-- From any place on, the tokens tile what is left of the text. -/
theorem ReadsToEnd.tiles {last : Scanner} {reads : List Scanner} (reading : s.ReadsToEnd reads last)
    (splits : s.Splits source before passed) :
    Tiles source s.position.offset (reads.map span) ∧ last.start.offset = source.utf8ByteSize := by
  induction reading generalizing before passed with
  | last ended =>
      obtain ⟨gap, size⟩ := splits.read_end ended
      refine ⟨.nil ?_, size⟩
      rw [splits.between_rest, String.toList_ofList]
      exact gap
  | @next s last reads more _ ih =>
      obtain ⟨gap, c, cs, isGap, solid, token, rest, read⟩ := splits.read_token more
      have munch := lexeme_munch c cs
      have moved : s.position.offset ≤ s.read.start.offset := by
        rw [splits.offset, read.start_offset, String.utf8Len_append (before ++ passed)]
        exact Nat.le_add_right ..
      obtain ⟨tiles, ended⟩ := ih read
      have bytes := read.start_lt munch.text_ne_nil
      refine ⟨tiles.cons moved bytes read.fits.offset_le ?_ ?_ ?_ ?_, ended⟩
      · show between source s.read.start.offset s.read.position.offset = s.read.token.text
        rw [read.between_token, token, ← munch.text_eq, String.ofList_toList]
      · show Gap False (between source s.position.offset s.read.start.offset).toList
        rw [splits.between_gap read, String.toList_ofList]
        exact isGap
      · obtain ⟨more, text⟩ := lexeme_text_cons c cs
        refine ⟨c, more, ?_, solid⟩
        show (between source s.read.start.offset s.read.position.offset).toList = c :: more
        rw [read.between_token, String.toList_ofList, text]
      · show s.read.token.Longest (between source s.read.start.offset source.utf8ByteSize).toList
          (between source s.read.position.offset source.utf8ByteSize).toList
        rw [read.between_here, read.between_rest, String.toList_ofList, String.toList_ofList, token,
          rest, lexeme_text_append]
        exact lexeme_longest c cs

end Scanner

/-- The tokens of a text tile it: reading comes to an end, nothing but gaps lies between
the tokens that it finds, none of them starts on a blank or a comment, and the end of the
text is found behind all of its bytes. -/
theorem scan_tiles (source : String) :
    ∃ reads last, (Scanner.ofString source).ReadsToEnd reads last ∧
      scan source = reads.map Scanner.located ++ [last.located] ∧
      Tiles source 0 (reads.map Scanner.span) ∧
      last.token = .endOfFile ∧ last.start.offset = source.utf8ByteSize := by
  obtain ⟨reads, last, reading, tokens⟩ := (Scanner.ofString source).readsToEnd
  obtain ⟨tiles, ended⟩ := reading.tiles (Scanner.splits_ofString source)
  exact ⟨reads, last, reading, tokens, tiles, reading.token_last, ended⟩

end PolyCalc
