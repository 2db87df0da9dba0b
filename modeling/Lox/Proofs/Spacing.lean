/-
  File:      Lox/Proofs/Spacing.lean
  Subject:   What stands between two tokens plays no part.

  The tokens of a source, written one behind the other with anything between them that begins with a
  blank and holds nothing but blanks and finished comments, are scanned as the same tokens again.

  * `Filler`, `Separator` -- blanks and finished comments, and those that begin with a blank;
  * `Filler.tiles` -- a filler is cut into pieces that are neither tokens nor errors;
  * `spaced` -- tokens with separators behind them;
  * `tiles_spaced` -- the pieces of such a text;
  * `spacing_is_free` -- its tokens.
-/
import Lox.Proofs.Tiling

namespace Lox

/-! ## 1. Separators -/

/-- Blanks, comments to the end of a line with the line break, and closed block comments. -/
inductive Filler : List Char → Prop
  | nil : Filler []
  | blank {c cs} (hc : Piece.isBlank c = true) (h : Filler cs) : Filler (c :: cs)
  | line {body cs} (hb : '\n' ∉ body) (h : Filler cs) :
      Filler ('/' :: '/' :: (body ++ '\n' :: cs))
  | block {body cs} (hb : Closes 1 body) (h : Filler cs) : Filler ('/' :: '*' :: (body ++ cs))

/-- A filler that begins with a blank. -/
inductive Separator : List Char → Prop
  | mk {c cs} (hc : Piece.isBlank c = true) (h : Filler cs) : Separator (c :: cs)

/-- True of the pieces that are neither tokens nor errors. -/
def Piece.IsVoid (p : Piece) : Prop :=
  p.role = .blank ∨ p.role = .comment

variable {cs rest : List Char} {ps : List Piece}

/-- **A filler is cut into pieces that are neither tokens nor errors**, whatever follows it. -/
theorem Filler.tiles (h : Filler cs) (ht : Tiles rest ps) :
    ∃ fs, Tiles (cs ++ rest) (fs ++ ps) ∧ ∀ p ∈ fs, p.IsVoid := by
  induction h with
  | nil => exact ⟨[], ht, fun p hp => nomatch hp⟩
  | blank hc _ ih =>
      obtain ⟨fs, hfs, hvoid⟩ := ih
      exact ⟨_ :: fs, .cons (.blank hc) hfs, List.forall_mem_cons.mpr ⟨.inl rfl, hvoid⟩⟩
  | @line body cs hb _ ih =>
      obtain ⟨fs, hfs, hvoid⟩ := ih
      have hbreak : Tiles ('\n' :: (cs ++ rest)) (Piece.newline :: (fs ++ ps)) :=
        .cons (.blank rfl) hfs
      have hstop : Stops (· ≠ '\n') ('\n' :: (cs ++ rest)) := by simp
      have hline := Tiles.cons (.lineComment hb hstop) hbreak
      refine ⟨⟨'/' :: '/' :: body, .comment⟩ :: Piece.newline :: fs, by simpa using hline, ?_⟩
      exact List.forall_mem_cons.mpr ⟨.inr rfl, List.forall_mem_cons.mpr ⟨.inl rfl, hvoid⟩⟩
  | @block body cs hb _ ih =>
      obtain ⟨fs, hfs, hvoid⟩ := ih
      have hblock := Tiles.cons (.blockComment hb) hfs
      refine ⟨⟨'/' :: '*' :: body, .comment⟩ :: fs, by simpa using hblock, ?_⟩
      exact List.forall_mem_cons.mpr ⟨.inr rfl, hvoid⟩

/-- Pieces that are neither tokens nor errors change nothing about the others. -/
theorem filterMap_append_void {fs : List Piece} (h : ∀ p ∈ fs, p.IsVoid) (ps : List Piece) :
    (fs ++ ps).filterMap Piece.content? = ps.filterMap Piece.content? ∧
      (fs ++ ps).filterMap Piece.cause? = ps.filterMap Piece.cause? := by
  have hcontent : fs.filterMap Piece.content? = [] := by
    refine List.filterMap_eq_nil_iff.mpr fun p hp => ?_
    rcases h p hp with hrole | hrole <;> rw [Piece.content?, hrole]
  have hcause : fs.filterMap Piece.cause? = [] := by
    refine List.filterMap_eq_nil_iff.mpr fun p hp => ?_
    rcases h p hp with hrole | hrole <;> rw [Piece.cause?, hrole]
  simp [hcontent, hcause]

/-! ## 2. Tokens with separators behind them -/

/-- Every token with its separator behind it. -/
def spaced (ts : List Token) (seps : List String) : String :=
  String.join (List.zipWith (fun t sep => t.lexeme ++ sep) ts seps)

/-- The token is cut off some source. -/
def Token.IsCut (t : Token) : Prop :=
  ∃ rest, Cut t.piece rest

theorem isCut_of_mem {source : List Char} {line : Int} {t : Token}
    (h : t ∈ (scanFrom line source).stream.tokens) : t.IsCut :=
  (pieces_tile source).cut_of_mem (piece_mem_of_token h)

/-- A token and its separator, put before something else. -/
theorem Token.IsCut.tiles {t : Token} (ht : t.IsCut) (hs : Separator cs) (hps : Tiles rest ps) :
    ∃ fs, Tiles (t.lexeme.toList ++ (cs ++ rest)) (t.piece :: (fs ++ ps)) ∧
      ∀ p ∈ fs, p.IsVoid := by
  obtain ⟨_, hcut⟩ := ht
  obtain ⟨hc, hfiller⟩ := hs
  obtain ⟨fs, hfs, hvoid⟩ := (Filler.blank hc hfiller).tiles hps
  exact ⟨fs, .cons (hcut.before_blank rfl hc _) hfs, hvoid⟩

theorem toList_spaced (t : Token) (ts : List Token) (sep : String) (seps : List String) :
    (spaced (t :: ts) (sep :: seps)).toList =
      t.lexeme.toList ++ (sep.toList ++ (spaced ts seps).toList) := by
  simp [spaced]

/-- **The pieces of spaced tokens** are these tokens, and pieces that are neither tokens nor
    errors. -/
theorem tiles_spaced : ∀ (ts : List Token) (seps : List String), seps.length = ts.length →
    (∀ t ∈ ts, t.IsCut) → (∀ sep ∈ seps, Separator sep.toList) →
    ∃ ps, Tiles (spaced ts seps).toList ps ∧
      ps.filterMap Piece.content? = ts.map Token.content ∧ ps.filterMap Piece.cause? = []
  | [], [], _, _, _ => ⟨[], .nil, rfl, rfl⟩
  | t :: ts, sep :: seps, hlength, hts, hseps => by
      obtain ⟨ht, hts⟩ := List.forall_mem_cons.mp hts
      obtain ⟨hsep, hseps⟩ := List.forall_mem_cons.mp hseps
      obtain ⟨ps, htiles, hcontent, hcause⟩ :=
        tiles_spaced ts seps (Nat.succ.inj hlength) hts hseps
      obtain ⟨fs, hfirst, hvoid⟩ := ht.tiles hsep htiles
      obtain ⟨hcontent', hcause'⟩ := filterMap_append_void hvoid ps
      refine ⟨t.piece :: (fs ++ ps), ?_, ?_, ?_⟩
      · rw [toList_spaced]
        exact hfirst
      · rw [List.filterMap_cons_some t.content?_piece, hcontent', hcontent, List.map_cons]
      · have ht : t.piece.cause? = none := rfl
        rw [List.filterMap_cons_none ht, hcause', hcause]

/-- **What stands between two tokens plays no part, and scanning is idempotent on its tokens.**
    Whatever the source, with errors or without, its tokens with separators behind them are scanned
    without an error, and as the same tokens but for their lines. -/
theorem spacing_is_free (source : String) (seps : List String)
    (hlength : seps.length = (scan source).stream.tokens.length)
    (hseps : ∀ sep ∈ seps, Separator sep.toList) :
    let again := scan (spaced (scan source).stream.tokens seps)
    again.errors = [] ∧
      again.stream.tokens.map Token.content = (scan source).stream.tokens.map Token.content ∧
      again.stream.stop.content = (.eof, "", .nil) := by
  obtain ⟨ps, htiles, hcontent, hcause⟩ :=
    tiles_spaced (scan source).stream.tokens seps hlength (fun _ => isCut_of_mem) hseps
  refine ⟨?_, (htiles.tokens 1).trans hcontent, rfl⟩
  exact List.map_eq_nil_iff.mp ((htiles.causes 1).trans hcause)

/-- `x/*c*/<="a`, an unclosed string behind two tokens: with a comment behind each of the two, they
    are scanned again. -/
theorem spacing_is_free_comparison :
    let source := "x/*c*/<=\"a"
    let seps := [" //y\n", "\t/*/*z*/*/"]
    let again := scan (spaced (scan source).stream.tokens seps)
    seps.length = (scan source).stream.tokens.length ∧
      (∀ sep ∈ seps, Separator sep.toList) ∧
      spaced (scan source).stream.tokens seps = "x //y\n<=\t/*/*z*/*/" ∧
      again.errors = [] ∧
      again.stream.tokens.map Token.content =
        [(.identifier, "x", .nil), (.lessEqual, "<=", .nil)] := by
  intro source seps again
  have hpieces : pieces source.toList =
      [⟨['x'], .token .identifier .nil⟩, ⟨['/', '*', 'c', '*', '/'], .comment⟩,
        ⟨['<', '='], .token .lessEqual .nil⟩, ⟨[Piece.quote, 'a'], .unclosed⟩] := by cbv
  have htokens : (scan source).stream.tokens =
      [{ kind := .identifier, lexeme := "x" }, { kind := .lessEqual, lexeme := "<=" }] := by
    rw [scan, scanFrom_eq, hpieces]
    rfl
  have hlength : seps.length = (scan source).stream.tokens.length := by simp [htokens, seps]
  have hline : Filler ('/' :: '/' :: (['y'] ++ '\n' :: [])) := .line (by decide) .nil
  have hcloses : Closes 1 ['/', '*', 'z', '*', '/', '*', '/'] :=
    .opening (.other (by simp [Piece.IsMark]) (.closing (.closing .done)))
  have hblock : Filler ('/' :: '*' :: (['/', '*', 'z', '*', '/', '*', '/'] ++ [])) :=
    .block hcloses .nil
  have hseps : ∀ sep ∈ seps, Separator sep.toList :=
    List.forall_mem_cons.mpr ⟨.mk rfl hline, List.forall_mem_singleton.mpr (.mk rfl hblock)⟩
  obtain ⟨herrors, hagain, -⟩ := spacing_is_free source seps hlength hseps
  refine ⟨hlength, hseps, ?_, herrors, ?_⟩
  · rw [htokens]
    rfl
  · rw [hagain, htokens]
    rfl

end Lox
