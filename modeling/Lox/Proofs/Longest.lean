/-
  File:      Lox/Proofs/Longest.lean
  Subject:   Tokens are lexemes of their kinds, and no longer ones could be cut.

  What a kind is spelled like is said here once more, without a look at the scanner: `Lexeme` is the
  dictionary of the language.  A text is in it just if a source that consists of the text alone is
  cut as one token.  Whatever follows such a text, the piece that is cut there is no shorter; so a
  token is the longest lexeme that its source has at that place.

  * `Kind.spelling?`, `Lexeme` -- the texts of each kind, with their literals;
  * `Cut.lexeme`, `Lexeme.cut` -- tokens are lexemes, and lexemes are cut as tokens;
  * `Lexeme.unique` -- a text is a lexeme of one kind, with one literal;
  * `Cut.longest` -- no lexeme in front of the source is longer than the piece that is cut;
  * `tokens_are_longest_lexemes` -- all this of the tokens of a source.
-/
import Lox.Proofs.Spans

namespace Lox

open Token (Kind)

/-! ## 1. Lexemes -/

/-- The spelling of the kinds that are spelled in one way only. -/
def Token.Kind.spelling? : Kind → Option String
  | leftParen => some "("
  | rightParen => some ")"
  | leftBrace => some "\x7b"
  | rightBrace => some "\x7d"
  | comma => some ","
  | dot => some "."
  | minus => some "-"
  | plus => some "+"
  | semicolon => some ";"
  | slash => some "/"
  | star => some "*"
  | bang => some "!"
  | bangEqual => some "!="
  | equal => some "="
  | equalEqual => some "=="
  | greater => some ">"
  | greaterEqual => some ">="
  | less => some "<"
  | lessEqual => some "<="
  | andWord => some "and"
  | classWord => some "class"
  | elseWord => some "else"
  | falseWord => some "false"
  | forWord => some "for"
  | funWord => some "fun"
  | ifWord => some "if"
  | nilWord => some "nil"
  | orWord => some "or"
  | printWord => some "print"
  | returnWord => some "return"
  | superWord => some "super"
  | thisWord => some "this"
  | trueWord => some "true"
  | varWord => some "var"
  | whileWord => some "while"
  | identifier | string | number | eof => none

/-- The text is a lexeme of the kind, and the literal is what it stands for. -/
inductive Lexeme : Kind → (text : List Char) → (literal : Value) → Prop
  | fixed {kind word} (h : kind.spelling? = some word) : Lexeme kind word.toList .nil
  | identifier {c cs} (hc : Piece.startsWord c = true)
      (hcs : ∀ d ∈ cs, Piece.continuesWord d = true)
      (hk : String.ofList (c :: cs) ∉ Kind.keywords.map (·.1)) :
      Lexeme .identifier (c :: cs) .nil
  | whole {digits} (hne : digits ≠ []) (hd : ∀ c ∈ digits, c.isDigit = true) :
      Lexeme .number digits (.number (Decimal.mk (Nat.ofDigitChars 10 digits 0) 0).toFloat)
  | fraction {digits places} (hne : digits ≠ []) (hd : ∀ c ∈ digits, c.isDigit = true)
      (hne' : places ≠ []) (hp : ∀ c ∈ places, c.isDigit = true) :
      Lexeme .number (digits ++ '.' :: places) (.number
        (Decimal.mk (Nat.ofDigitChars 10 (digits ++ places) 0) (- places.length)).toFloat)
  | string {body} (hb : Piece.quote ∉ body) :
      Lexeme .string (Piece.quote :: (body ++ [Piece.quote])) (.string (String.ofList body))

/-- The text opens a comment, to the end of the line or of any length. -/
def OpensComment (text : List Char) : Prop :=
  text = ['/', '/'] ∨ text = ['/', '*']

/-! ## 2. Tokens are lexemes -/

theorem spelling?_of_symbol {c : Char} {kind : Kind} (h : Kind.ofSymbol? c = some kind) :
    ∃ word, kind.spelling? = some word ∧ word.toList = [c] := by
  unfold Kind.ofSymbol? at h
  split at h <;> cases h <;> exact ⟨_, rfl, rfl⟩

theorem spelling?_of_extensible {c : Char} {alone extended : Kind}
    (h : Kind.ofExtensible? c = some (alone, extended)) :
    (∃ word, alone.spelling? = some word ∧ word.toList = [c]) ∧
      ∃ word, extended.spelling? = some word ∧ word.toList = [c, '='] := by
  unfold Kind.ofExtensible? at h
  split at h <;> cases h <;> exact ⟨⟨_, rfl, rfl⟩, _, rfl, rfl⟩

/-- A reserved word is the spelling of its kind. -/
theorem spelling?_of_keyword {word : String} (h : word ∈ Kind.keywords.map (·.1)) :
    (Kind.ofWord word).spelling? = some word := by
  have hall : ∀ w ∈ Kind.keywords.map (·.1), (Kind.ofWord w).spelling? = some w := by decide
  exact hall word h

theorem ofWord_of_not_keyword {word : String} (h : word ∉ Kind.keywords.map (·.1)) :
    Kind.ofWord word = .identifier := by
  have hnone : Kind.keywords.lookup word = none := by
    rw [List.lookup_eq_none_iff]
    intro w hw
    rw [bne_iff_ne]
    rintro rfl
    exact h (List.mem_map_of_mem hw)
  rw [Kind.ofWord, hnone]
  rfl

variable {p : Piece} {rest : List Char} {kind : Kind} {literal : Value}

/-- **A token is a lexeme of its kind.** -/
theorem Cut.lexeme (h : Cut p rest) (hp : p.role = .token kind literal) :
    Lexeme kind p.text literal := by
  cases h with
  | symbol hs =>
      cases hp
      obtain ⟨word, hword, htext⟩ := spelling?_of_symbol hs
      exact htext ▸ .fixed hword
  | alone he =>
      cases hp
      obtain ⟨⟨word, hword, htext⟩, -⟩ := spelling?_of_extensible he
      exact htext ▸ .fixed hword
  | extended he =>
      cases hp
      obtain ⟨-, word, hword, htext⟩ := spelling?_of_extensible he
      exact htext ▸ .fixed hword
  | slash =>
      cases hp
      have hword : Kind.slash.spelling? = some "/" := rfl
      exact .fixed hword
  | string hb =>
      cases hp
      exact .string hb
  | whole hne hd hr hpoint hv =>
      cases hp
      rw [read?_whole hne hd] at hv
      cases hv
      exact .whole hne hd
  | fraction hne hd hne' hplaces hr hv =>
      cases hp
      rw [read?_fraction hne hd hne' hplaces] at hv
      cases hv
      exact .fraction hne hd hne' hplaces
  | @letters c cs _ hc hcs hr =>
      cases hp
      by_cases hk : String.ofList (c :: cs) ∈ Kind.keywords.map (·.1)
      · have hlexeme := Lexeme.fixed (spelling?_of_keyword hk)
        rw [String.toList_ofList] at hlexeme
        exact hlexeme
      · rw [ofWord_of_not_keyword hk]
        exact .identifier hc hcs hk
  | lineComment | blockComment | openComment | blank | unclosed | unexpected => cases hp

/-! ## 3. Lexemes are cut as tokens -/

/-- A reserved word that is all of a source is cut as its kind. -/
theorem cut_keyword {word : String} (h : (word, kind) ∈ Kind.keywords) :
    Cut ⟨word.toList, .token kind .nil⟩ [] := by
  have hkinds : ∀ w ∈ Kind.keywords, Kind.ofWord w.1 = w.2 := by decide
  have hstarts : ∀ w ∈ Kind.keywords, w.1.toList.head?.any Piece.startsWord = true := by decide
  have hletters : ∀ w ∈ Kind.keywords, w.1.toList.all Piece.continuesWord = true := by decide
  have hkind := hkinds (word, kind) h
  have hstart := hstarts (word, kind) h
  have hall := List.all_eq_true.mp (hletters (word, kind) h)
  cases htext : word.toList with
  | nil =>
      rw [htext] at hstart
      cases hstart
  | cons c cs =>
      rw [htext] at hstart hall
      have hcut : Cut _ [] := .letters hstart (List.forall_mem_cons.mp hall).2 (stops_nil _)
      rw [← htext, String.ofList_toList, hkind, htext] at hcut
      exact hcut

/-- A text that is spelled in one way only is cut as its kind. -/
theorem cut_of_spelling {word : String} (h : kind.spelling? = some word) :
    Cut ⟨word.toList, .token kind .nil⟩ [] := by
  cases kind with
  | leftParen | rightParen | leftBrace | rightBrace | comma | dot | minus | plus | semicolon
  | star =>
      cases h
      exact .symbol rfl
  | slash =>
      cases h
      exact .slash (stops_nil _)
  | bang | equal | greater | less =>
      cases h
      exact .alone rfl (stops_nil _)
  | bangEqual | equalEqual | greaterEqual | lessEqual =>
      cases h
      exact .extended rfl
  | andWord | classWord | elseWord | falseWord | forWord | funWord | ifWord | nilWord | orWord
  | printWord | returnWord | superWord | thisWord | trueWord | varWord | whileWord =>
      cases h
      exact cut_keyword (by decide)
  | identifier | string | number | eof => cases h

/-- **A lexeme that is all of a source is cut as one token.** -/
theorem Lexeme.cut {text : List Char} (h : Lexeme kind text literal) :
    Cut ⟨text, .token kind literal⟩ [] := by
  cases h with
  | fixed h => exact cut_of_spelling h
  | @identifier c cs hc hcs hk =>
      have hcut : Cut _ [] := .letters hc hcs (stops_nil _)
      rw [ofWord_of_not_keyword hk] at hcut
      exact hcut
  | whole hne hd =>
      refine .whole hne hd (stops_nil _) (fun c cs hrest => ?_) (read?_whole hne hd)
      cases hrest
  | fraction hne hd hne' hp =>
      exact .fraction hne hd hne' hp (stops_nil _) (read?_fraction hne hd hne' hp)
  | string hb => exact .string hb

/-- **A text is a lexeme of one kind at most, and stands for one literal.** -/
theorem Lexeme.unique {text : List Char} {kind' : Kind} {literal' : Value}
    (h : Lexeme kind text literal) (h' : Lexeme kind' text literal') :
    kind = kind' ∧ literal = literal' := by
  have hpieces := h.cut.pieces_eq
  have hpieces' := h'.cut.pieces_eq
  rw [List.append_nil] at hpieces hpieces'
  cases hpieces.symm.trans hpieces'
  exact ⟨rfl, rfl⟩

/-! ## 4. No longer lexeme -/

theorem next_of_digit {c : Char} (h : c.isDigit = true) (rest : List Char) :
    (Piece.next c rest).text = Piece.numberText c rest := by
  rw [next_of_continuesWord (Piece.continuesWord_of_digit h), if_pos h, Piece.ofDigit_text]

/-- A number goes on through all digits that follow. -/
theorem length_le_numberText (c : Char) {digits : List Char} (hd : ∀ d ∈ digits, d.isDigit = true)
    (more : List Char) : (c :: digits).length ≤ (Piece.numberText c (digits ++ more)).length := by
  have htake : (digits ++ more).takeWhile Char.isDigit = digits ++ more.takeWhile Char.isDigit :=
    List.takeWhile_append_of_pos hd
  have hwhole : (c :: digits).length ≤ (c :: (digits ++ more.takeWhile Char.isDigit)).length := by
    rw [List.length_cons, List.length_cons, List.length_append]
    omega
  unfold Piece.numberText
  dsimp only
  rw [htake]
  split
  · split
    · rw [List.length_append]
      omega
    · exact hwhole
  · exact hwhole

/-- **Whatever follows a token, the piece that is cut there is no shorter.** -/
theorem Cut.length_le_next (h : Cut p []) (hp : p.role = .token kind literal) (more : List Char) :
    ∀ {c body}, p.text = c :: body →
      p.text.length ≤ (Piece.next c (body ++ more)).text.length := by
  intro c body ht
  have hpos : 1 ≤ (Piece.next c (body ++ more)).text.length := by
    obtain ⟨_, _, -, hnext⟩ := Piece.next_text c (body ++ more)
    rw [hnext]
    exact Nat.succ_le_succ (Nat.zero_le _)
  cases h with
  | symbol | alone | slash =>
      cases ht
      exact hpos
  | extended he =>
      have hcut : Cut _ more := .extended he
      rw [hcut.next_eq ht]
  | string hb =>
      have hcut : Cut _ more := .string hb
      rw [hcut.next_eq ht]
  | whole hne hd =>
      cases ht
      obtain ⟨hc, hbody⟩ := List.forall_mem_cons.mp hd
      rw [next_of_digit hc]
      exact length_le_numberText c hbody more
  | @fraction digits places _ _ hne hd hne' hplaces =>
      obtain ⟨c', digits, rfl⟩ := List.exists_cons_of_ne_nil hne
      cases ht
      obtain ⟨hc, hdigits⟩ := List.forall_mem_cons.mp hd
      -- the digits that follow belong to the number
      have hlonger : ∀ d ∈ places ++ more.takeWhile Char.isDigit, d.isDigit = true :=
        List.forall_mem_append.mpr ⟨hplaces, fun _ => List.mem_takeWhile_imp⟩
      have hnumber := numberText_fraction (c := c) hdigits
        (List.append_ne_nil_of_left_ne_nil hne' _) hlonger (stops_dropWhile _ more)
      have hsplit : digits ++ '.' :: (places ++ more.takeWhile Char.isDigit) ++
          more.dropWhile Char.isDigit = digits ++ '.' :: places ++ more := by
        simp
      rw [hsplit] at hnumber
      rw [next_of_digit hc]
      show (c :: digits ++ '.' :: places).length ≤
        (Piece.numberText c (digits ++ '.' :: places ++ more)).length
      rw [hnumber]
      simp only [List.cons_append, List.length_cons, List.length_append]
      omega
  | letters hc hcs =>
      cases ht
      -- the letters that follow belong to the word
      have hlonger : ∀ d ∈ body ++ more.takeWhile Piece.continuesWord,
          Piece.continuesWord d = true :=
        List.forall_mem_append.mpr ⟨hcs, fun _ => List.mem_takeWhile_imp⟩
      have hcut : Cut _ (more.dropWhile Piece.continuesWord) :=
        .letters hc hlonger (stops_dropWhile _ more)
      have hnext := hcut.next_eq rfl
      rw [List.append_assoc, List.takeWhile_append_dropWhile] at hnext
      rw [hnext]
      show (c :: body).length ≤ (c :: (body ++ _)).length
      rw [List.length_cons, List.length_cons, List.length_append]
      omega
  | lineComment | blockComment | openComment | blank | unclosed | unexpected => cases hp

/-- The piece that is cut off a source is the one that the function finds in front of it. -/
theorem Cut.eq_next (h : Cut p rest) {c : Char} {body : List Char}
    (heq : p.text ++ rest = c :: body) : p = Piece.next c body := by
  obtain ⟨d, others, hothers⟩ := List.exists_cons_of_ne_nil h.text_ne_nil
  have hnext := h.next_eq hothers
  rw [hothers, List.cons_append] at heq
  obtain ⟨rfl, rfl⟩ := List.cons.inj heq
  exact hnext.symm

/-- **No lexeme in front of a source is longer than the piece that is cut off it.** -/
theorem Cut.longest (h : Cut p rest) {text more : List Char} (ht : Lexeme kind text literal)
    (heq : p.text ++ rest = text ++ more) : text.length ≤ p.text.length := by
  obtain ⟨c, body, rfl⟩ : ∃ c body, text = c :: body :=
    List.exists_cons_of_ne_nil ht.cut.text_ne_nil
  rw [h.eq_next heq]
  exact ht.cut.length_le_next rfl more rfl

/-- **Where a comment is opened, a comment is cut.** -/
theorem Cut.comment_of_opening (h : Cut p rest) {text more : List Char} (ht : OpensComment text)
    (heq : p.text ++ rest = text ++ more) : p.role = .comment := by
  rcases ht with rfl | rfl
  · rw [h.eq_next heq]
    rfl
  · rw [h.eq_next heq]
    rfl

/-! ## 5. The tokens of a source -/

namespace Piece.At

variable {source : List Char} {x : Span}

theorem lexeme (h : p.At source x) (hp : p.role = .token kind literal) :
    Lexeme kind (x.text source) literal := by
  rw [h.text_eq]
  obtain ⟨before, rest, -, hcut, -⟩ := h
  exact hcut.lexeme hp

/-- The text from the beginning of a piece on, up to a place behind its end, is longer than the
    piece, and both are at the front of one source. -/
theorem text_longer (h : p.At source x) {e : Nat} (hx : x.stop < e) (he : e ≤ source.length) :
    ∃ rest more, Cut p rest ∧ p.text ++ rest = Span.text ⟨x.start, e⟩ source ++ more ∧
      p.text.length < (Span.text ⟨x.start, e⟩ source).length := by
  obtain ⟨before, rest, rfl, hcut, rfl⟩ := h
  have htext : Span.text ⟨before.length, e⟩ (before ++ (p.text ++ rest)) =
      (p.text ++ rest).take (e - before.length) := by
    show ((before ++ (p.text ++ rest)).take e).drop before.length = _
    rw [List.drop_take, List.drop_left]
  have hlength : ((p.text ++ rest).take (e - before.length)).length = e - before.length := by
    rw [List.length_append] at he
    rw [List.length_take]
    omega
  refine ⟨rest, (p.text ++ rest).drop (e - before.length), hcut, ?_, ?_⟩
  · rw [htext, List.take_append_drop]
  · rw [htext, hlength]
    show p.text.length < e - before.length
    have hstop : before.length + p.text.length < e := hx
    omega

/-- **No longer text at the place of a token is a lexeme or opens a comment.** -/
theorem no_longer (h : p.At source x) (hp : p.role = .token kind literal) {e : Nat}
    (hx : x.stop < e) (he : e ≤ source.length) :
    (∀ kind literal, ¬ Lexeme kind (Span.text ⟨x.start, e⟩ source) literal) ∧
      ¬ OpensComment (Span.text ⟨x.start, e⟩ source) := by
  obtain ⟨rest, more, hcut, heq, hlt⟩ := h.text_longer hx he
  refine ⟨fun kind literal hlexeme => ?_, fun hopens => ?_⟩
  · exact absurd (hcut.longest hlexeme heq) (Nat.not_le_of_lt hlt)
  · rw [hcut.comment_of_opening hopens heq] at hp
    cases hp

end Piece.At

/-- A token of a source is a lexeme of its kind, or it is the end marker. -/
theorem lexeme_of_mem_all {source : String} {t : Token} (h : t ∈ (scan source).stream.all) :
    Lexeme t.kind t.lexeme.toList t.literal ∨ t.kind = .eof ∧ t.lexeme = "" ∧ t.literal = .nil := by
  rcases List.mem_append.mp h with h | h
  · obtain ⟨rest, hcut⟩ := (pieces_tile source.toList).cut_of_mem (piece_mem_of_token h)
    exact .inl (hcut.lexeme rfl)
  · rw [List.mem_singleton.mp h]
    exact .inr ⟨rfl, rfl, rfl⟩

theorem Lexeme.ne_empty {lexeme : String} (h : Lexeme kind lexeme.toList literal) :
    lexeme ≠ "" := by
  rintro rfl
  exact h.cut.text_ne_nil rfl

/-- **Tokens are the longest lexemes, and their lexemes tell what they are.** The spans of tokens
    follow one another.  A token is the text of its span; this text is a lexeme of its kind and
    stands for its literal; and no longer text that the source has at this place is a lexeme of any
    kind or opens a comment.  So tokens with one lexeme, be they of one source or of two, have one
    kind and one literal. -/
theorem tokens_are_longest_lexemes (source : String) :
    let text := source.toList
    (tokenSpans text).Pairwise (·.stop ≤ ·.start) ∧
    List.Forall₂ (fun (t : Token) x => t.lexeme.toList = x.text text ∧
        Lexeme t.kind (x.text text) t.literal ∧
        ∀ e, x.stop < e → e ≤ text.length →
          (∀ kind literal, ¬ Lexeme kind (Span.text ⟨x.start, e⟩ text) literal) ∧
            ¬ OpensComment (Span.text ⟨x.start, e⟩ text))
      (scan source).stream.tokens (tokenSpans text) ∧
    ∀ other : String, ∀ t ∈ (scan source).stream.all, ∀ u ∈ (scan other).stream.all,
      t.lexeme = u.lexeme → t.kind = u.kind ∧ t.literal = u.literal := by
  intro text
  refine ⟨spansOf_ascend _ text, (tokens_at source).imp ?_, ?_⟩
  · rintro t x ⟨hat, -⟩
    exact ⟨hat.text_eq.symm, hat.lexeme rfl, fun e hx he => hat.no_longer rfl hx he⟩
  · intro other t ht u hu heq
    rcases lexeme_of_mem_all ht with hlexeme | ⟨hkind, hempty, hliteral⟩
    · rcases lexeme_of_mem_all hu with hlexeme' | ⟨-, hempty', -⟩
      · rw [heq] at hlexeme
        exact hlexeme.unique hlexeme'
      · exact absurd (heq.trans hempty') hlexeme.ne_empty
    · rcases lexeme_of_mem_all hu with hlexeme' | ⟨hkind', -, hliteral'⟩
      · exact absurd (heq.symm.trans hempty) hlexeme'.ne_empty
      · exact ⟨hkind.trans hkind'.symm, hliteral.trans hliteral'.symm⟩

end Lox
