/-
  File:      Lox/Proofs/Pieces.lean
  Subject:   The pieces of a source: they tile it, and a line break separates them.

  * `Piece.next_text` -- a piece is a stretch of the source, beginning with its first character;
  * `pieces`, `pieces_text` -- the pieces of a source, put together, are the source;
  * `Piece.Unfinished` -- pieces that go on behind a line break: an unclosed string or comment;
  * `pieces_newline` -- apart from these, what stands before a line break is cut as if nothing
    followed.
-/
import Lox.Token.Scan

namespace Lox

/-! ## 1. Pieces tile the source -/

namespace Piece

theorem commentBody_prefix : ∀ (depth : Nat) (cs : List Char),
    ∃ tail, cs = commentBody depth cs ++ tail := by
  intro depth cs
  fun_induction commentBody depth cs with
  | case1 cs => exact ⟨cs, rfl⟩
  | case2 => exact ⟨[], rfl⟩
  | case3 depth cs ih | case4 depth cs ih | case5 depth c cs _ _ ih =>
      obtain ⟨tail, h⟩ := ih
      refine ⟨tail, ?_⟩
      simpa using h

/-- A text is what is taken of it while `p` holds, and the rest. -/
theorem takeWhile_prefix (p : Char → Bool) (cs : List Char) :
    ∃ tail, cs = cs.takeWhile p ++ tail :=
  ⟨cs.dropWhile p, List.takeWhile_append_dropWhile.symm⟩

theorem ofSlash_text (rest : List Char) :
    ∃ body tail, rest = body ++ tail ∧ (ofSlash rest).text = '/' :: body := by
  unfold ofSlash
  split
  · rename_i cs
    obtain ⟨tail, h⟩ := takeWhile_prefix (· ≠ '\n') cs
    exact ⟨'/' :: cs.takeWhile (· ≠ '\n'), tail, congrArg (List.cons '/') h, rfl⟩
  · rename_i cs
    obtain ⟨tail, h⟩ := commentBody_prefix 1 cs
    exact ⟨'*' :: commentBody 1 cs, tail, congrArg (List.cons '*') h, rfl⟩
  · exact ⟨[], rest, rfl, rfl⟩

theorem ofQuote_text (rest : List Char) :
    ∃ body tail, rest = body ++ tail ∧ (ofQuote rest).text = quote :: body := by
  have hsplit : rest.takeWhile (· ≠ quote) ++ rest.dropWhile (· ≠ quote) = rest :=
    List.takeWhile_append_dropWhile
  unfold ofQuote
  split
  · rename_i hd
    rw [hd] at hsplit
    exact ⟨_, [], hsplit.symm, rfl⟩
  · rename_i q tail hd
    -- the text stopped at a quotation mark
    have hq : q = quote := by
      have := List.head?_dropWhile_not (· ≠ quote) rest
      rw [hd] at this
      simpa using this
    rw [hd, hq] at hsplit
    exact ⟨rest.takeWhile (· ≠ quote) ++ [quote], tail, by simpa using hsplit.symm, rfl⟩

theorem numberText_eq (c : Char) (rest : List Char) :
    ∃ body tail, rest = body ++ tail ∧ numberText c rest = c :: body := by
  have hsplit : rest.takeWhile Char.isDigit ++ rest.dropWhile Char.isDigit = rest :=
    List.takeWhile_append_dropWhile
  unfold numberText
  split
  · rename_i d cs hd
    split
    · obtain ⟨tail, h⟩ := takeWhile_prefix Char.isDigit cs
      rw [hd] at hsplit
      refine ⟨rest.takeWhile Char.isDigit ++ '.' :: d :: cs.takeWhile Char.isDigit, tail, ?_, rfl⟩
      rw [List.append_assoc, List.cons_append, List.cons_append, ← h]
      exact hsplit.symm
    · exact ⟨_, _, hsplit.symm, rfl⟩
  · exact ⟨_, _, hsplit.symm, rfl⟩

/-- The text of a number, read as one or not. -/
theorem ofDigit_text (c : Char) (rest : List Char) : (ofDigit c rest).text = numberText c rest := by
  unfold ofDigit
  dsimp only
  split <;> rfl

/-- **A piece is a stretch of the source, beginning with its first character.** -/
theorem next_text (c : Char) (rest : List Char) :
    ∃ body tail, rest = body ++ tail ∧ (next c rest).text = c :: body := by
  unfold next
  split
  · exact ⟨[], rest, rfl, rfl⟩
  · split
    · rename_i he
      obtain ⟨tail, rfl⟩ := List.head?_eq_some_iff.mp he
      exact ⟨['='], tail, rfl, rfl⟩
    · exact ⟨[], rest, rfl, rfl⟩
  · split
    · rename_i hc
      rw [hc]
      exact ofSlash_text rest
    split
    · exact ⟨[], rest, rfl, rfl⟩
    split
    · rename_i hc
      rw [hc]
      exact ofQuote_text rest
    split
    · obtain ⟨body, tail, h, ht⟩ := numberText_eq c rest
      exact ⟨body, tail, h, (ofDigit_text c rest).trans ht⟩
    split
    · exact ⟨_, _, List.takeWhile_append_dropWhile.symm, rfl⟩
    · exact ⟨[], rest, rfl, rfl⟩

end Piece

/-- The pieces into which the scanner cuts a source, without their lines. -/
def pieces (source : List Char) : List Piece :=
  (located 1 source).map (·.1)

/-- The line on which a source begins plays no part in how it is cut. -/
theorem located_map_fst (line : Int) (source : List Char) :
    (located line source).map (·.1) = pieces source := by
  have hany : ∀ line' : Int,
      (located line source).map (·.1) = (located line' source).map (·.1) := by
    fun_induction located line source with
    | case1 =>
        intro line'
        rw [located]
    | case2 line c rest p behind ih =>
        intro line'
        rw [located, List.map_cons, List.map_cons, ih]
  exact hany 1

theorem pieces_nil : pieces [] = [] := by
  rw [pieces, located, List.map_nil]

theorem pieces_next (c : Char) (rest : List Char) :
    pieces (c :: rest) =
      Piece.next c rest :: pieces (rest.drop ((Piece.next c rest).text.length - 1)) := by
  rw [pieces, located, List.map_cons, located_map_fst]

/-- The first piece of a source, and the pieces of what it leaves. -/
theorem pieces_cons {c : Char} {body tail : List Char}
    (h : (Piece.next c (body ++ tail)).text = c :: body) :
    pieces (c :: (body ++ tail)) = Piece.next c (body ++ tail) :: pieces tail := by
  rw [pieces_next, h]
  simp

/-- **Nothing of a source is lost between its pieces.** -/
theorem pieces_text : ∀ source : List Char, (pieces source).flatMap Piece.text = source
  | [] => by rw [pieces_nil, List.flatMap_nil]
  | c :: rest => by
      obtain ⟨body, tail, hrest, ht⟩ := Piece.next_text c rest
      have hlt : tail.length < (c :: rest).length := by
        rw [hrest, List.length_cons, List.length_append]
        omega
      rw [hrest] at ht ⊢
      rw [pieces_cons ht, List.flatMap_cons, ht, pieces_text tail]
      rfl
termination_by source => source.length
decreasing_by exact hlt

/-! ## 2. A line break separates pieces -/

/-- How many openings of block comments are unclosed behind a text, if `depth` of them are
    unclosed before it. -/
def openAfter : (depth : Nat) → List Char → Nat
  | 0, _ => 0
  | depth + 1, [] => depth + 1
  | depth + 1, '/' :: '*' :: cs => openAfter (depth + 2) cs
  | depth + 1, '*' :: '/' :: cs => openAfter depth cs
  | depth + 1, _ :: cs => openAfter (depth + 1) cs

namespace Piece

/-- A block comment with an opening that is never closed: the source ends inside it. -/
def OpenComment (p : Piece) : Prop :=
  p.role = .comment ∧ ['/', '*'] <+: p.text ∧ 0 < openAfter 1 (p.text.drop 2)

instance : DecidablePred OpenComment :=
  fun p => inferInstanceAs (Decidable (p.role = .comment ∧ _ ∧ _))

/-- The pieces that a line break does not end: an unclosed string or an unclosed comment. -/
def Unfinished (p : Piece) : Prop :=
  p.role = .unclosed ∨ p.OpenComment

/-- True of the two characters that together open or close a block comment. -/
def IsMark (c d : Char) : Prop :=
  c = '/' ∧ d = '*' ∨ c = '*' ∧ d = '/'

theorem openAfter_cons (depth : Nat) {c d : Char} (h : ¬ IsMark c d) (cs : List Char) :
    openAfter (depth + 1) (c :: d :: cs) = openAfter (depth + 1) (d :: cs) := by
  rw [openAfter]
  · rintro cs rfl hd
    exact h (.inl ⟨rfl, (List.cons.inj hd).1⟩)
  · rintro cs rfl hd
    exact h (.inr ⟨rfl, (List.cons.inj hd).1⟩)

theorem commentBody_cons (depth : Nat) {c d : Char} (h : ¬ IsMark c d) (cs : List Char) :
    commentBody (depth + 1) (c :: d :: cs) = c :: commentBody (depth + 1) (d :: cs) := by
  rw [commentBody]
  · rintro cs rfl hd
    exact h (.inl ⟨rfl, (List.cons.inj hd).1⟩)
  · rintro cs rfl hd
    exact h (.inr ⟨rfl, (List.cons.inj hd).1⟩)

theorem commentBody_head (depth : Nat) (c : Char) (cs : List Char) :
    ∃ body, commentBody (depth + 1) (c :: cs) = c :: body := by
  unfold commentBody
  split <;> simp_all

/-- A comment that is closed in `cs` ends there, whatever follows. -/
theorem commentBody_append (more : List Char) : ∀ (depth : Nat) (cs : List Char),
    openAfter depth (commentBody depth cs) = 0 →
    commentBody depth (cs ++ more) = commentBody depth cs := by
  intro depth cs
  fun_induction commentBody depth cs with
  | case1 cs => simp [commentBody]
  | case2 depth => simp [openAfter]
  | case3 depth cs ih | case4 depth cs ih =>
      intro h
      simp [commentBody, ih (by simpa [openAfter] using h)]
  | case5 depth c cs h1 h2 ih =>
      intro h
      cases cs with
      | nil => simp [commentBody, openAfter] at h
      | cons d cs =>
          have hm : ¬ IsMark c d := by
            rintro (⟨hc, rfl⟩ | ⟨hc, rfl⟩)
            · exact h1 cs hc rfl
            · exact h2 cs hc rfl
          obtain ⟨body, hbody⟩ := commentBody_head depth d cs
          rw [hbody, openAfter_cons depth hm, ← hbody] at h
          rw [List.cons_append, List.cons_append, commentBody_cons depth hm, ← List.cons_append,
            ih h]

section Newline

variable {p : Char → Bool} (more : List Char)

theorem takeWhile_newline (hp : p '\n' = false) (cs : List Char) :
    (cs ++ '\n' :: more).takeWhile p = cs.takeWhile p := by
  induction cs with
  | nil => simp [hp]
  | cons c cs ih => simp only [List.cons_append, List.takeWhile_cons, ih]

theorem dropWhile_newline (hp : p '\n' = false) (cs : List Char) :
    (cs ++ '\n' :: more).dropWhile p = cs.dropWhile p ++ '\n' :: more := by
  induction cs with
  | nil => simp [hp]
  | cons c cs ih =>
      simp only [List.cons_append, List.dropWhile_cons, ih]
      split <;> rfl

/-- A stretch that ends inside `cs` ends there, whatever follows. -/
theorem takeWhile_append_of_ends {cs : List Char} (h : cs.dropWhile p ≠ []) (more : List Char) :
    (cs ++ more).takeWhile p = cs.takeWhile p ∧
      (cs ++ more).dropWhile p = cs.dropWhile p ++ more := by
  induction cs with
  | nil => exact absurd rfl h
  | cons c cs ih =>
      simp only [List.cons_append, List.takeWhile_cons, List.dropWhile_cons] at h ⊢
      split
      · rename_i hc
        rw [if_pos hc] at h
        obtain ⟨h1, h2⟩ := ih h
        exact ⟨congrArg (List.cons c) h1, h2⟩
      · exact ⟨rfl, rfl⟩

theorem ofSlash_newline {rest : List Char} (h : ¬ (ofSlash rest).Unfinished) :
    ofSlash (rest ++ '\n' :: more) = ofSlash rest := by
  cases rest with
  | nil => rfl
  | cons d cs =>
      by_cases hd : d = '/'
      · subst hd
        simp only [List.cons_append, ofSlash, Piece.mk.injEq, List.cons.injEq, true_and, and_true]
        exact takeWhile_newline more (by decide) cs
      by_cases hs : d = '*'
      · subst hs
        have hclosed : openAfter 1 (commentBody 1 cs) = 0 := by
          refine Nat.eq_zero_of_not_pos fun hpos => h (.inr ⟨rfl, ⟨commentBody 1 cs, rfl⟩, hpos⟩)
        simp only [List.cons_append, ofSlash, commentBody_append ('\n' :: more) 1 cs hclosed]
      · simp [ofSlash, hd, hs]

theorem ofQuote_newline {rest : List Char} (h : ¬ (ofQuote rest).Unfinished) :
    ofQuote (rest ++ '\n' :: more) = ofQuote rest := by
  have hends : rest.dropWhile (· ≠ quote) ≠ [] := by
    intro hd
    refine h (.inl ?_)
    simp only [ofQuote, hd]
  obtain ⟨ht, hd⟩ := takeWhile_append_of_ends hends ('\n' :: more)
  obtain ⟨q, tail, hq⟩ := List.exists_cons_of_ne_nil hends
  simp only [ofQuote, ht, hd, hq, List.cons_append]

theorem numberText_newline (c : Char) (rest : List Char) :
    numberText c (rest ++ '\n' :: more) = numberText c rest := by
  have hn : Char.isDigit '\n' = false := by decide
  simp only [numberText, takeWhile_newline more hn, dropWhile_newline more hn]
  -- what stands behind the digits: nothing, a point at the end, a point before more, or another
  match rest.dropWhile Char.isDigit with
  | [] => rfl
  | [d] =>
      by_cases hd : d = '.'
      · subst hd
        simp [hn]
      · simp [hd]
  | d :: e :: cs =>
      by_cases hd : d = '.'
      · subst hd
        simp only [List.cons_append, takeWhile_newline more hn]
      · simp [hd]

theorem ofLetter_newline (c : Char) (rest : List Char) :
    ofLetter c (rest ++ '\n' :: more) = ofLetter c rest := by
  simp only [ofLetter, takeWhile_newline more (by decide : continuesWord '\n' = false)]

/-- **A line break ends every finished piece**: it is cut as if nothing followed. -/
theorem next_newline {c : Char} {rest : List Char} (h : ¬ (next c rest).Unfinished) :
    next c (rest ++ '\n' :: more) = next c rest := by
  unfold next at h ⊢
  split
  · rfl
  · rename_i alone extended _ _
    have hhead : (rest ++ '\n' :: more).head? = some '=' ↔ rest.head? = some '=' := by
      cases rest <;> simp
    simp only [hhead]
  · rename_i hs he
    simp only [hs, he] at h
    split
    · rename_i hc
      rw [if_pos hc] at h
      exact ofSlash_newline more h
    rename_i hc
    rw [if_neg hc] at h
    split
    · rfl
    rename_i hb
    rw [if_neg hb] at h
    split
    · rename_i hq
      rw [if_pos hq] at h
      exact ofQuote_newline more h
    split
    · simp only [ofDigit, numberText_newline]
    split
    · exact ofLetter_newline more c rest
    · rfl

end Newline

end Piece

/-- The piece that a line break is. -/
def Piece.newline : Piece := ⟨['\n'], .blank⟩

/-- **Finished pieces before a line break are cut as if nothing followed.** -/
theorem pieces_newline (more : List Char) : ∀ source : List Char,
    (∀ p ∈ pieces source, ¬ p.Unfinished) →
    pieces (source ++ '\n' :: more) = pieces source ++ Piece.newline :: pieces more
  | [], _ => by
      have h : Piece.next '\n' ([] ++ more) = Piece.newline := rfl
      have hp : pieces ('\n' :: ([] ++ more)) = _ := pieces_cons (by rw [h]; rfl)
      rw [h] at hp
      simpa [pieces_nil] using hp
  | c :: rest, hf => by
      obtain ⟨body, tail, hrest, ht⟩ := Piece.next_text c rest
      have hlt : tail.length < (c :: rest).length := by
        rw [hrest, List.length_cons, List.length_append]
        omega
      rw [hrest] at ht hf ⊢
      rw [pieces_cons ht] at hf ⊢
      have hnext := Piece.next_newline more (hf _ List.mem_cons_self)
      have hcons : pieces (c :: (body ++ (tail ++ '\n' :: more))) = _ :=
        pieces_cons (by rw [← List.append_assoc, hnext, ht])
      rw [List.cons_append, List.append_assoc, hcons, ← List.append_assoc, hnext,
        pieces_newline more tail fun p hp => hf p (List.mem_cons_of_mem _ hp)]
      rfl
termination_by source => source.length
decreasing_by exact hlt

end Lox
