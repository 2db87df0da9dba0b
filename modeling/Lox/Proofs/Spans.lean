/-
  File:      Lox/Proofs/Spans.lean
  Subject:   Where the pieces of a source stand, and on which lines.

  The scanner counts line breaks as it goes, piece by piece.  Here the lines are told from the
  source as a whole.  A piece takes up a SPAN of it, and the line on which it ends is one more than
  the number of line breaks in front of its end, be they in blanks, in strings or in comments.

  * `Span`, `onSpans` -- the stretch of source that a piece takes up;
  * `lineAt`, `located_pieces` -- lines counted from the beginning of a source;
  * `Piece.At` -- a piece is cut from the source at a span;
  * `spansOf_ascend` -- spans follow one another;
  * `tokenSpans`, `tokens_at` -- the spans of the tokens, and what stands there;
  * `errorSpans`, `errors_at` -- the same of the errors.
-/
import Lox.Proofs.Tiling

namespace Lox

/-! ## 1. Spans -/

/-- A stretch of a source: from `start` up to `stop`, without the latter. -/
structure Span where
  start : Nat
  stop : Nat
  deriving DecidableEq, Repr

/-- The text of a stretch. -/
def Span.text (x : Span) (source : List Char) : List Char :=
  (source.take x.stop).drop x.start

/-- The pieces with the stretches that they take up, the first of them beginning at `start`. -/
def onSpans (start : Nat) : List Piece → List (Piece × Span)
  | [] => []
  | p :: ps => (p, ⟨start, start + p.text.length⟩) :: onSpans (start + p.text.length) ps

/-- The line on which a place of a source is: one more than the number of line breaks before it. -/
def lineAt (source : List Char) (place : Nat) : Int :=
  1 + newlines (source.take place)

theorem lineAt_length (source : List Char) : lineAt source source.length = 1 + newlines source := by
  rw [lineAt, List.take_length]

theorem lineAt_append (before rest : List Char) :
    lineAt (before ++ rest) before.length = 1 + newlines before := by
  rw [lineAt, List.take_left]

/-- Lines counted from the beginning of a source, the first piece standing behind `before`. -/
theorem countedLines_eq (before : List Char) (ps : List Piece) :
    countedLines (1 + newlines before) ps = (onSpans before.length ps).map fun (p, x) =>
      (p, lineAt (before ++ ps.flatMap Piece.text) x.stop) := by
  induction ps generalizing before with
  | nil => rfl
  | cons p ps ih =>
      have hsource : before ++ (p :: ps).flatMap Piece.text =
          (before ++ p.text) ++ ps.flatMap Piece.text := by
        rw [List.flatMap_cons, List.append_assoc]
      have hline : 1 + (newlines before : Int) + newlines p.text =
          1 + newlines (before ++ p.text) := by
        rw [newlines_append]
        omega
      have hstop : before.length + p.text.length = (before ++ p.text).length :=
        List.length_append.symm
      rw [countedLines, onSpans, List.map_cons, hsource, hline, hstop, ih (before ++ p.text)]
      show _ = (p, lineAt _ (before ++ p.text).length) :: _
      rw [lineAt_append]

/-- **The scanner's lines are those counted from the beginning of the source.** -/
theorem located_pieces (source : List Char) :
    located 1 source =
      (onSpans 0 (pieces source)).map fun (p, x) => (p, lineAt source x.stop) := by
  have hlines := countedLines_eq [] (pieces source)
  rw [List.nil_append, pieces_text] at hlines
  rw [located_eq]
  exact hlines

/-- The piece is cut from the source at the span. -/
def Piece.At (source : List Char) (p : Piece) (x : Span) : Prop :=
  ∃ before rest, source = before ++ (p.text ++ rest) ∧ Cut p rest ∧
    x = ⟨before.length, before.length + p.text.length⟩

theorem Tiles.at_of_mem {source : List Char} {ps : List Piece} (h : Tiles source ps)
    (before : List Char) {p : Piece} {x : Span} (hp : (p, x) ∈ onSpans before.length ps) :
    p.At (before ++ source) x := by
  induction h generalizing before with
  | nil => cases hp
  | @cons q rest ps hq _ ih =>
      rcases List.mem_cons.mp hp with heq | hp
      · cases heq
        exact ⟨before, rest, rfl, hq, rfl⟩
      · rw [← List.length_append] at hp
        rw [← List.append_assoc]
        exact ih (before ++ q.text) hp

variable {source : List Char} {p : Piece} {x : Span}

theorem Piece.At.text_eq (h : p.At source x) : x.text source = p.text := by
  obtain ⟨before, rest, rfl, -, rfl⟩ := h
  show ((before ++ (p.text ++ rest)).take (before.length + p.text.length)).drop before.length = _
  rw [← List.append_assoc, ← List.length_append, List.take_left, List.drop_left]

/-! ## 2. Tokens and errors on their spans -/

/-- The spans of the pieces of a source from which `g` makes something, in order. -/
def spansOf (g : Piece → Option β) (source : List Char) : List Span :=
  (onSpans 0 (pieces source)).filterMap fun (p, x) => (g p).map fun _ => x

/-- The spans of the tokens of a source. -/
def tokenSpans (source : List Char) : List Span :=
  spansOf Piece.content? source

/-- The spans of the errors of a source. -/
def errorSpans (source : List Char) : List Span :=
  spansOf Piece.cause? source

theorem onSpans_ascend : ∀ (start : Nat) (ps : List Piece),
    (∀ y ∈ onSpans start ps, start ≤ y.2.start) ∧
      (onSpans start ps).Pairwise (·.2.stop ≤ ·.2.start)
  | _, [] => ⟨fun _ hy => absurd hy List.not_mem_nil, .nil⟩
  | start, p :: ps => by
      obtain ⟨hfrom, hpairs⟩ := onSpans_ascend (start + p.text.length) ps
      refine ⟨List.forall_mem_cons.mpr ⟨Nat.le_refl start, fun y hy => ?_⟩, .cons hfrom hpairs⟩
      exact Nat.le_trans (Nat.le_add_right _ _) (hfrom y hy)

/-- **Spans follow one another**: none begins before the one in front of it ends. -/
theorem spansOf_ascend (g : Piece → Option β) (source : List Char) :
    (spansOf g source).Pairwise (·.stop ≤ ·.start) := by
  refine (onSpans_ascend 0 (pieces source)).2.filterMap _ ?_
  rintro ⟨p, x⟩ ⟨q, y⟩ hxy x' hx y' hy
  obtain ⟨-, -, rfl⟩ := Option.map_eq_some_iff.mp hx
  obtain ⟨-, -, rfl⟩ := Option.map_eq_some_iff.mp hy
  exact hxy

/-- What is made of the pieces on their lines, one by one with the spans of these pieces. -/
theorem forall₂_spans {f : Piece → Int → Option α} {g : Piece → Option β} {R : α → Span → Prop}
    (h : ∀ p x, Piece.At source p x →
      Option.Rel R (f p (lineAt source x.stop)) ((g p).map fun _ => x)) :
    List.Forall₂ R ((located 1 source).filterMap fun (p, n) => f p n) (spansOf g source) := by
  rw [located_pieces, List.filterMap_map, spansOf]
  have hsame : List.Forall₂ (fun a b => a = b ∧ a ∈ onSpans 0 (pieces source))
      (onSpans 0 (pieces source)) (onSpans 0 (pieces source)) :=
    List.forall₂_same.mpr fun a ha => ⟨rfl, ha⟩
  refine List.rel_filterMap ?_ hsame
  rintro ⟨p, x⟩ - ⟨rfl, hp⟩
  exact h p x ((pieces_tile source).at_of_mem [] hp)

/-- **Every token is cut from the source at its span**, and it is on the line on which that ends. -/
theorem tokens_at (source : String) :
    List.Forall₂ (fun (t : Token) x => t.piece.At source.toList x ∧
        t.line = lineAt source.toList x.stop)
      (scan source).stream.tokens (tokenSpans source.toList) := by
  refine forall₂_spans fun p x hp => ?_
  rcases p with ⟨text, role⟩
  cases role with
  | token kind literal =>
      refine .some ⟨?_, rfl⟩
      rw [Token.piece, String.toList_ofList]
      exact hp
  | blank | comment | unexpected | unclosed | malformed => exact .none

theorem errors_at (source : String) :
    List.Forall₂ (fun (e : LexicalError) x => (∃ p : Piece, p.At source.toList x ∧
        p.cause? = some e.cause) ∧ e.line = lineAt source.toList x.stop)
      (scan source).errors (errorSpans source.toList) := by
  refine forall₂_spans fun p x hp => ?_
  rcases p with ⟨text, role⟩
  cases role with
  | unexpected | unclosed | malformed => exact .some ⟨⟨_, hp, rfl⟩, rfl⟩
  | token | blank | comment => exact .none

end Lox
