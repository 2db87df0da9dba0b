/-
  File:      Lox/Proofs/Tiling.lean
  Subject:   Scanning loses nothing of a source and invents nothing.

  Pieces TILE a source if each of them is cut off what the ones before it have left.  There is one
  way to do so, and the scanner finds it; the tokens and the errors are read off it.

  * `Tiles` -- the pieces tile the source;
  * `pieces_tile`, `Tiles.pieces_eq` -- those of the scanner do, and no others;
  * `Token.content`, `Piece.content?` -- a token without its line, and the one that a piece is;
  * `scanFrom_ended` -- the end marker stands behind the tokens, and only there;
  * `scan_loses_nothing` -- tokens and errors, one for one piece each.
-/
import Lox.Proofs.Lexemes

namespace Lox

open Token (Kind)

/-! ## 1. Tilings -/

/-- The pieces, put one behind the other, are the source, and each of them is cut off in front of
    those behind it. -/
inductive Tiles : (source : List Char) → List Piece → Prop
  | nil : Tiles [] []
  | cons {p rest ps} (hp : Cut p rest) (ht : Tiles rest ps) : Tiles (p.text ++ rest) (p :: ps)

variable {source : List Char} {ps : List Piece}

/-- **The scanner's pieces tile the source.** -/
theorem pieces_tile : ∀ source : List Char, Tiles source (pieces source)
  | [] => by
      rw [pieces_nil]
      exact .nil
  | c :: cs => by
      obtain ⟨rest, hsplit, hcut⟩ := exists_cut c cs
      have hlt : rest.length < (c :: cs).length := by
        rw [hsplit, List.length_append]
        have := List.length_pos_iff.mpr hcut.text_ne_nil
        omega
      rw [hsplit, hcut.pieces_eq]
      exact .cons hcut (pieces_tile rest)
termination_by source => source.length
decreasing_by exact hlt

/-- **No other pieces do.** -/
theorem Tiles.pieces_eq (h : Tiles source ps) : pieces source = ps := by
  induction h with
  | nil => rw [pieces_nil]
  | cons hp _ ih => rw [hp.pieces_eq, ih]

theorem Tiles.text (h : Tiles source ps) : ps.flatMap Piece.text = source := by
  rw [← h.pieces_eq, pieces_text]

theorem Tiles.cut_of_mem (h : Tiles source ps) {p : Piece} (hp : p ∈ ps) : ∃ rest, Cut p rest := by
  induction h with
  | nil => cases hp
  | @cons q rest qs hq _ ih =>
      rcases List.mem_cons.mp hp with rfl | hp
      · exact ⟨rest, hq⟩
      · exact ih hp

/-! ## 2. Tokens -/

/-- A token without its line. -/
def Token.content (t : Token) : Kind × String × Value :=
  (t.kind, t.lexeme, t.literal)

/-- The token that a piece is, without a line. -/
def Piece.content? (p : Piece) : Option (Kind × String × Value) :=
  match p.role with
  | .token kind literal => some (kind, String.ofList p.text, literal)
  | _ => none

theorem Piece.content_token? (p : Piece) (line : Int) :
    (p.token? line).map Token.content = p.content? := by
  rcases p with ⟨text, role⟩
  cases role <;> rfl

/-- What is made of located pieces without a look at their lines. -/
theorem filterMap_located {f : Piece → Int → Option α} {g : α → β} {k : Piece → Option β}
    (h : ∀ p n, (f p n).map g = k p) (line : Int) (source : List Char) :
    ((located line source).filterMap fun (p, n) => f p n).map g = (pieces source).filterMap k := by
  have hk : (fun pn : Piece × Int => (f pn.1 pn.2).map g) = k ∘ (·.1) :=
    funext fun pn => h pn.1 pn.2
  rw [List.map_filterMap, hk, ← List.filterMap_map, located_map_fst]

/-- **The tokens of a source, but for their lines, are those of its pieces.** -/
theorem Tiles.tokens (h : Tiles source ps) (line : Int) :
    (scanFrom line source).stream.tokens.map Token.content = ps.filterMap Piece.content? := by
  rw [← h.pieces_eq]
  exact filterMap_located Piece.content_token? line source

theorem ofWord_ne_eof (s : String) : Kind.ofWord s ≠ .eof := by
  have hnone : ∀ w ∈ Kind.keywords, w.2 ≠ .eof := by decide
  unfold Kind.ofWord
  cases h : Kind.keywords.lookup s with
  | none => exact fun h => nomatch h
  | some kind =>
      obtain ⟨before, after, hwords, -⟩ := List.lookup_eq_some_iff.mp h
      refine hnone (s, kind) ?_
      rw [hwords]
      simp

/-- No piece is an end marker. -/
theorem Cut.kind_ne_eof {p : Piece} {rest : List Char} (h : Cut p rest) {kind : Kind}
    {literal : Value} (hp : p.role = .token kind literal) : kind ≠ .eof := by
  cases h with
  | @symbol c k _ hs =>
      cases hp
      unfold Kind.ofSymbol? at hs
      split at hs <;> cases hs <;> decide
  | alone he | extended he =>
      cases hp
      unfold Kind.ofExtensible? at he
      split at he <;> cases he <;> decide
  | letters =>
      cases hp
      exact ofWord_ne_eof _
  | slash | string | whole | fraction =>
      cases hp
      decide
  | lineComment | blockComment | openComment | blank | unclosed | unexpected => cases hp

/-- The piece that a token is. -/
def Token.piece (t : Token) : Piece :=
  ⟨t.lexeme.toList, .token t.kind t.literal⟩

theorem Token.content?_piece (t : Token) : t.piece.content? = some t.content := by
  simp [Piece.content?, Token.piece, Token.content]

/-- A token of a source is one of its pieces. -/
theorem piece_mem_of_token {t : Token} {line : Int}
    (h : t ∈ (scanFrom line source).stream.tokens) : t.piece ∈ pieces source := by
  obtain ⟨⟨⟨text, role⟩, n⟩, hp, ht⟩ := List.mem_filterMap.mp h
  have hpiece := List.mem_map_of_mem (f := (·.1)) hp
  rw [located_map_fst] at hpiece
  cases role with
  | token kind literal =>
      cases ht
      rw [Token.piece, String.toList_ofList]
      exact hpiece
  | _ => cases ht

/-- **The end marker stands behind the tokens of a source, and only there.** -/
theorem scanFrom_ended (line : Int) (source : List Char) : (scanFrom line source).stream.Ended := by
  refine ⟨rfl, fun t ht => ?_⟩
  obtain ⟨rest, hcut⟩ := (pieces_tile source).cut_of_mem (piece_mem_of_token ht)
  exact hcut.kind_ne_eof rfl

/-! ## 3. Errors -/

/-- The cause of the error that a piece is. -/
def Piece.cause? (p : Piece) : Option LexicalError.Cause :=
  match p.role with
  | .unexpected c => some (.unexpectedCharacter c)
  | .unclosed => some .unterminatedString
  | .malformed => some .malformedNumber
  | _ => none

/-- The character that a piece is, if nothing begins with it. -/
def Piece.unexpected? (p : Piece) : Option Char :=
  match p.role with
  | .unexpected c => some c
  | _ => none

theorem Piece.cause_error? (p : Piece) (line : Int) :
    (p.error? line).map (·.cause) = p.cause? := by
  rcases p with ⟨text, role⟩
  cases role <;> rfl

/-- The causes of errors are those of the pieces. -/
theorem Tiles.causes (h : Tiles source ps) (line : Int) :
    (scanFrom line source).errors.map (·.cause) = ps.filterMap Piece.cause? := by
  rw [← h.pieces_eq]
  exact filterMap_located Piece.cause_error? line source

/-- Nothing tiles the empty source. -/
theorem Tiles.eq_nil (h : Tiles [] ps) : ps = [] := by
  rw [← h.pieces_eq, pieces_nil]

/-- Every piece is a token, means nothing, is a single character or ends the source. -/
theorem Cut.role_cases {p : Piece} {rest : List Char} (h : Cut p rest) :
    (p.cause? = none ∧ p.unexpected? = none ∧ p.role ≠ .unclosed) ∨
      (∃ c, p.role = .unexpected c) ∨ p.role = .unclosed ∧ rest = [] := by
  cases h with
  | unexpected => exact .inr (.inl ⟨_, rfl⟩)
  | unclosed => exact .inr (.inr ⟨rfl, rfl⟩)
  | _ => exact .inl ⟨rfl, rfl, fun h => nomatch h⟩

/-- **The errors of a tiling**: the unexpected characters, in order, and an unclosed string behind
    them. -/
theorem Tiles.cause?_eq (h : Tiles source ps) :
    ps.filterMap Piece.cause? =
      (ps.filterMap Piece.unexpected?).map .unexpectedCharacter ++
        if ∃ p ∈ ps, p.role = .unclosed then [.unterminatedString] else [] := by
  induction h with
  | nil => simp
  | @cons p rest ps hp ht ih =>
      rcases hp.role_cases with ⟨hcause, hunexpected, hrole⟩ | ⟨c, hrole⟩ | ⟨hrole, rfl⟩
      · rw [List.filterMap_cons_none hcause, List.filterMap_cons_none hunexpected, ih]
        simp [hrole]
      · have hcause : p.cause? = some (.unexpectedCharacter c) := by rw [Piece.cause?, hrole]
        have hunexpected : p.unexpected? = some c := by rw [Piece.unexpected?, hrole]
        rw [List.filterMap_cons_some hcause, List.filterMap_cons_some hunexpected, ih]
        simp [hrole]
      · have hcause : p.cause? = some .unterminatedString := by rw [Piece.cause?, hrole]
        have hunexpected : p.unexpected? = none := by rw [Piece.unexpected?, hrole]
        rw [ht.eq_nil, List.filterMap_cons_some hcause, List.filterMap_cons_none hunexpected]
        simp [hrole]

/-- The two errors that a tiling can have are not worded as a malformed number. -/
theorem Tiles.message_ne (h : Tiles source ps) {cause : LexicalError.Cause}
    (hc : cause ∈ ps.filterMap Piece.cause?) : cause.message ≠ "Unexpected invalid number." := by
  rw [h.cause?_eq, List.mem_append] at hc
  rcases hc with hc | hc
  · obtain ⟨c, -, rfl⟩ := List.mem_map.mp hc
    show "Unexpected character: " ++ String.singleton c ≠ "Unexpected invalid number."
    intro hmessage
    have hchars := congrArg String.toList hmessage
    simp at hchars
  · split at hc
    · rw [List.mem_singleton.mp hc]
      decide
    · cases hc

/-- **Scanning loses nothing of a source and invents nothing.** The source is tiled by pieces, none
    of them empty: tokens, blanks, comments, unexpected characters, and a string that is not closed
    as the last one.  The tokens are the first of these, in order, with one end marker behind them;
    the errors are one for each unexpected character, in order, and one for the unclosed string if
    there is one.  No number is malformed. -/
theorem scan_loses_nothing (source : String) :
    ∃ ps, Tiles source.toList ps ∧ ps.flatMap Piece.text = source.toList ∧
      (∀ p ∈ ps, p.text ≠ []) ∧
      (scan source).stream.tokens.map Token.content = ps.filterMap Piece.content? ∧
      (scan source).stream.Ended ∧ (scan source).stream.stop.lexeme = "" ∧
      (scan source).errors.map (·.cause.message) =
        ((ps.filterMap Piece.unexpected?).map ("Unexpected character: " ++ String.singleton ·) ++
          if ∃ p ∈ ps, p.role = .unclosed then ["Unterminated string."] else []) ∧
      ∀ e ∈ (scan source).errors, e.cause.message ≠ "Unexpected invalid number." := by
  have htiles := pieces_tile source.toList
  have hcauses := (htiles.causes 1).trans htiles.cause?_eq
  refine ⟨pieces source.toList, htiles, htiles.text, fun p hp => ?_, htiles.tokens 1,
    scanFrom_ended 1 _, rfl, ?_, fun e he => ?_⟩
  · obtain ⟨rest, hcut⟩ := htiles.cut_of_mem hp
    exact hcut.text_ne_nil
  · have hmessages := congrArg (List.map LexicalError.Cause.message) hcauses
    rw [List.map_map, List.map_append, List.map_map] at hmessages
    refine hmessages.trans (congrArg _ ?_)
    split <;> rfl
  · refine htiles.message_ne ?_
    rw [← htiles.causes 1]
    exact List.mem_map_of_mem he

end Lox
