/-
  File:      Lox/Proofs/Counting.lean
  Subject:   The line counter counts line breaks.

  The scanner has one counter of lines, and counts it up in three places: between words, inside
  strings and inside block comments.  Each time it does so for each line break that it passes and
  for nothing else, and where it does not count there is no line break to be passed: none in a
  comment to the end of the line, none in a mark inside a comment, none in a word.  So the counter
  behind a piece is told from the text of the piece, and the lines of tokens and errors from those
  of the pieces.

  * `Piece.stringLine_eq`, `Piece.commentLine_eq`, `Piece.newlines_next` -- the three places, and
    all others;
  * `Piece.lineBehind_eq` -- the counter behind a piece;
  * `located_eq`, `scanFrom_eq` -- the lines of a source, told from line breaks;
  * `scanFrom_ascends` -- the lines of tokens never go down;
  * `scanFrom_newline`, `scanFrom_shift` -- what a line break does to tokens and errors.
-/
import Lox.Proofs.Pieces

namespace Lox

/-! ## 1. The counter behind a piece -/

/-- How many lines a text ends. -/
def newlines (text : List Char) : Nat :=
  text.count '\n'

theorem newlines_append (a b : List Char) : newlines (a ++ b) = newlines a + newlines b :=
  List.count_append

theorem newlines_eq_zero {text : List Char} (h : '\n' ∉ text) : newlines text = 0 :=
  List.count_eq_zero.mpr h

/-- A line break counts for one line, and any other character for none. -/
theorem newlines_cons (c : Char) (cs : List Char) (line : Int) :
    line + newlines (c :: cs) = (if c = '\n' then line + 1 else line) + newlines cs := by
  by_cases hc : c = '\n'
  · rw [if_pos hc, hc, newlines, List.count_cons_self, newlines]
    omega
  · rw [if_neg hc, newlines, List.count_cons_of_ne hc, newlines]

namespace Piece

/-- The line is counted up as often as there are line breaks before the closing mark. -/
theorem stringLine_eq (line : Int) (cs : List Char) :
    stringLine line cs = line + newlines (cs.takeWhile (· ≠ quote)) := by
  induction cs generalizing line with
  | nil => exact (Int.add_zero line).symm
  | cons c cs ih =>
      rw [stringLine]
      by_cases hc : c = quote
      · rw [if_pos hc, List.takeWhile_cons_of_neg (by simp [hc])]
        exact (Int.add_zero line).symm
      · rw [if_neg hc, List.takeWhile_cons_of_pos (by simp [hc]), newlines_cons, ih]

/-- The line is counted up as often as there are line breaks in the comment: its marks, which are
    passed over without a look, hold none. -/
theorem commentLine_eq (line : Int) (depth : Nat) (cs : List Char) :
    commentLine line depth cs = line + newlines (commentBody depth cs) := by
  fun_induction commentLine line depth cs with
  | case1 | case2 => simp [commentBody, newlines]
  | case3 line depth cs ih | case4 line depth cs ih =>
      rw [ih, commentBody]
      rfl
  | case5 line depth c cs hopen hclose ih =>
      rw [commentBody, newlines_cons, ih]
      · exact hopen
      · exact hclose

/-- A text whose characters are of a class without the line break ends no line. -/
theorem newlines_of_class {p : Char → Bool} (hp : p '\n' = false) {text : List Char}
    (h : ∀ c ∈ text, p c = true) : newlines text = 0 := by
  refine newlines_eq_zero fun hmem => ?_
  rw [h '\n' hmem] at hp
  cases hp

theorem newlines_takeWhile {p : Char → Bool} (hp : p '\n' = false) (cs : List Char) :
    newlines (cs.takeWhile p) = 0 :=
  newlines_of_class hp (List.all_eq_true.mp List.all_takeWhile)

theorem newlines_digits {c : Char} (hc : c.isDigit = true) (cs : List Char) :
    newlines (c :: cs.takeWhile Char.isDigit) = 0 :=
  newlines_of_class (p := Char.isDigit) rfl
    (List.forall_mem_cons.mpr ⟨hc, List.all_eq_true.mp List.all_takeWhile⟩)

theorem newlines_numberText {c : Char} (hc : c.isDigit = true) (rest : List Char) :
    newlines (numberText c rest) = 0 := by
  unfold numberText
  dsimp only
  split
  · split
    · rename_i hd
      rw [newlines_append, newlines_digits hc]
      exact (Nat.zero_add _).trans (newlines_digits hd _)
    · exact newlines_digits hc rest
  · exact newlines_digits hc rest

/-- No piece but blanks, comments and strings ends a line. -/
theorem newlines_next {c : Char} (rest : List Char) (hslash : c ≠ '/') (hbreak : c ≠ '\n')
    (hquote : c ≠ quote) : newlines (next c rest).text = 0 := by
  have hone : ∀ cs, newlines (c :: cs) = newlines cs := fun cs => List.count_cons_of_ne hbreak
  unfold next
  split
  · exact hone []
  · split
    · exact hone ['=']
    · exact hone []
  · rw [if_neg hslash]
    by_cases hblank : isBlank c = true
    · rw [if_pos hblank]
      exact hone []
    rw [if_neg hblank, if_neg hquote]
    by_cases hdigit : c.isDigit = true
    · rw [if_pos hdigit, ofDigit_text]
      exact newlines_numberText hdigit rest
    rw [if_neg hdigit]
    by_cases hstart : startsWord c = true
    · rw [if_pos hstart]
      exact (hone _).trans (newlines_takeWhile rfl rest)
    · rw [if_neg hstart]
      exact hone []

theorem slashLine_eq (line : Int) (rest : List Char) :
    slashLine line rest = line + newlines (ofSlash rest).text := by
  unfold ofSlash
  split
  · rename_i cs
    have hnone : newlines ('/' :: '/' :: cs.takeWhile (· ≠ '\n')) = 0 :=
      newlines_takeWhile (p := (· ≠ '\n')) rfl cs
    rw [hnone]
    exact (Int.add_zero line).symm
  · exact commentLine_eq line 1 _
  · rename_i hother
    rw [slashLine]
    · exact (Int.add_zero line).symm
    · exact hother

theorem newlines_ofQuote (rest : List Char) :
    newlines (ofQuote rest).text = newlines (rest.takeWhile (· ≠ quote)) := by
  unfold ofQuote
  dsimp only
  split
  · rfl
  · exact newlines_append _ _

/-- **The line is counted up as often as there are line breaks in the piece.** -/
theorem lineBehind_eq (line : Int) (c : Char) (rest : List Char) :
    lineBehind line c rest = line + newlines (next c rest).text := by
  rw [lineBehind]
  by_cases hslash : c = '/'
  · subst hslash
    exact slashLine_eq line rest
  by_cases hbreak : c = '\n'
  · subst hbreak
    rfl
  by_cases hquote : c = quote
  · subst hquote
    show stringLine line rest = line + newlines (ofQuote rest).text
    rw [stringLine_eq, newlines_ofQuote]
  · rw [if_neg hslash, if_neg hbreak, if_neg hquote, newlines_next rest hslash hbreak hquote]
    exact (Int.add_zero line).symm

end Piece

/-! ## 2. The counter behind pieces -/

/-- The pieces with the lines on which they end, the first of them beginning on `line`: told from
    the line breaks in their texts. -/
def countedLines (line : Int) : List Piece → List (Piece × Int)
  | [] => []
  | p :: ps => (p, line + newlines p.text) :: countedLines (line + newlines p.text) ps

/-- The line behind the last of the pieces, told in the same way. -/
def countedEnd (line : Int) : List Piece → Int
  | [] => line
  | p :: ps => countedEnd (line + newlines p.text) ps

/-- **The scanner's lines are those told from line breaks.** -/
theorem located_eq (line : Int) (source : List Char) :
    located line source = countedLines line (pieces source) := by
  fun_induction located line source with
  | case1 => rw [pieces_nil, countedLines]
  | case2 line c rest p behind ih =>
      rw [pieces_next, countedLines, ih, ← Piece.lineBehind_eq]

theorem lastLine_counted (line : Int) (ps : List Piece) :
    lastLine line (countedLines line ps) = countedEnd line ps := by
  induction ps generalizing line with
  | nil => rfl
  | cons p ps ih =>
      rw [countedEnd, ← ih, countedLines]
      cases ps with
      | nil => rfl
      | cons q ps => rfl

theorem countedEnd_eq : ∀ (line : Int) (ps : List Piece),
    countedEnd line ps = line + newlines (ps.flatMap Piece.text)
  | line, [] => by simp [countedEnd, newlines]
  | line, p :: ps => by
      rw [countedEnd, countedEnd_eq, List.flatMap_cons, newlines_append]
      omega

theorem countedEnd_append (line : Int) (ps qs : List Piece) :
    countedEnd line (ps ++ qs) = countedEnd (countedEnd line ps) qs := by
  rw [countedEnd_eq, countedEnd_eq, countedEnd_eq, List.flatMap_append, newlines_append]
  omega

theorem countedLines_append : ∀ (line : Int) (ps qs : List Piece),
    countedLines line (ps ++ qs) = countedLines line ps ++ countedLines (countedEnd line ps) qs
  | line, [], qs => rfl
  | line, p :: ps, qs => by
      rw [List.cons_append, countedLines, countedLines, countedEnd, countedLines_append,
        List.cons_append]

theorem countedLines_shift (k : Int) : ∀ (line : Int) (ps : List Piece),
    countedLines (line + k) ps = (countedLines line ps).map fun (p, n) => (p, n + k)
  | line, [] => rfl
  | line, p :: ps => by
      have hline : line + k + newlines p.text = line + newlines p.text + k := by omega
      rw [countedLines, countedLines, List.map_cons, hline, countedLines_shift k]

/-- The lines of pieces never go down. -/
theorem countedLines_ascend : ∀ (line : Int) (ps : List Piece),
    (∀ x ∈ countedLines line ps, line ≤ x.2) ∧ (countedLines line ps).Pairwise (·.2 ≤ ·.2)
  | line, [] => ⟨fun _ hx => absurd hx List.not_mem_nil, .nil⟩
  | line, p :: ps => by
      obtain ⟨hfrom, hpairs⟩ := countedLines_ascend (line + newlines p.text) ps
      have hfirst : line ≤ line + newlines p.text := by omega
      rw [countedLines]
      exact ⟨List.forall_mem_cons.mpr ⟨hfirst, fun x hx => Int.le_trans hfirst (hfrom x hx)⟩,
        .cons hfrom hpairs⟩

/-! ## 3. Tokens and errors -/

/-- What a scan finds, with the lines told from line breaks. -/
theorem scanFrom_eq (line : Int) (source : List Char) :
    scanFrom line source =
      { stream :=
          { tokens := (countedLines line (pieces source)).filterMap fun (p, n) => p.token? n
            stop := Token.endOn (countedEnd line (pieces source)) }
        errors := (countedLines line (pieces source)).filterMap fun (p, n) => p.error? n } := by
  rw [scanFrom, located_eq, lastLine_counted]

/-- The token `k` lines further down. -/
def Token.shift (k : Int) (t : Token) : Token :=
  { t with line := t.line + k }

/-- The error `k` lines further down. -/
def LexicalError.shift (k : Int) (e : LexicalError) : LexicalError :=
  { e with line := e.line + k }

/-- What a scan finds, `k` lines further down. -/
def Scan.shift (k : Int) (s : Scan) : Scan :=
  { stream := { tokens := s.stream.tokens.map (·.shift k), stop := s.stream.stop.shift k }
    errors := s.errors.map (·.shift k) }

/-- What a scan finds, with another scan behind it. -/
def Scan.followedBy (s later : Scan) : Scan :=
  { stream := { tokens := s.stream.tokens ++ later.stream.tokens, stop := later.stream.stop }
    errors := s.errors ++ later.errors }

theorem Piece.line_of_token? {p : Piece} {n : Int} {t : Token} (h : p.token? n = some t) :
    t.line = n := by
  rcases p with ⟨text, role⟩
  cases role <;> cases h
  rfl

/-- **The lines of the tokens of a source never go down.** -/
theorem scanFrom_ascends (line : Int) (source : List Char) :
    (scanFrom line source).stream.tokens.Pairwise (·.line ≤ ·.line) := by
  rw [scanFrom_eq]
  refine (countedLines_ascend line (pieces source)).2.filterMap _ fun x y hxy t ht u hu => ?_
  rw [Piece.line_of_token? ht, Piece.line_of_token? hu]
  exact hxy

theorem Piece.token?_shift (p : Piece) (n k : Int) :
    p.token? (n + k) = (p.token? n).map (·.shift k) := by
  rcases p with ⟨text, role⟩
  cases role <;> rfl

theorem Piece.error?_shift (p : Piece) (n k : Int) :
    p.error? (n + k) = (p.error? n).map (·.shift k) := by
  rcases p with ⟨text, role⟩
  cases role <;> rfl

/-- **Further down, a source has the same tokens and errors on other lines.** -/
theorem scanFrom_shift (line k : Int) (source : List Char) :
    scanFrom (line + k) source = (scanFrom line source).shift k := by
  have hstop : countedEnd (line + k) (pieces source) = countedEnd line (pieces source) + k := by
    rw [countedEnd_eq, countedEnd_eq]
    omega
  simp only [scanFrom_eq, Scan.shift, countedLines_shift, hstop, List.filterMap_map,
    List.map_filterMap, Function.comp_def, Piece.token?_shift, Piece.error?_shift]
  rfl

/-- **Scanning goes line by line**: behind a line break, the tokens and errors are those of what
    follows, so many lines further down. -/
theorem scanFrom_newline (line : Int) {source : List Char} (more : List Char)
    (h : ∀ p ∈ pieces source, ¬ p.Unfinished) :
    scanFrom line (source ++ '\n' :: more) =
      (scanFrom line source).followedBy ((scanFrom line more).shift (newlines source + 1)) := by
  have hline : countedEnd line (pieces source) + newlines Piece.newline.text =
      line + (newlines source + 1) := by
    rw [countedEnd_eq, pieces_text]
    have : newlines Piece.newline.text = 1 := rfl
    omega
  rw [← scanFrom_shift]
  simp only [scanFrom_eq, Scan.followedBy, pieces_newline more source h, countedLines_append,
    countedLines, countedEnd_append, countedEnd, List.filterMap_append, List.filterMap_cons, hline]
  rfl

end Lox
