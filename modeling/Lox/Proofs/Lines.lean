/-
  File:      Lox/Proofs/Lines.lean
  Subject:   The lines of tokens and errors.

  Lines are counted inside strings and block comments as well as between words, and a line comment
  leaves its line break to what follows.  So the line of a token or an error is a matter of the
  source alone: of the line breaks in front of it.  And what stands behind a line break is scanned
  as if it stood alone, so many lines further down.

  * `LexicalError.At` -- what an error says of its span, and on which line;
  * `lines_are_exact` -- the lines of tokens, errors and the end marker;
  * `scans_meet_at_line_breaks` -- two sources joined by a line break.
-/
import Lox.Proofs.Longest
import Lox.Proofs.Script

namespace Lox

/-! ## 1. Lines of tokens and errors -/

/-- The error is an unexpected character, on the line of that character, or a string that is not
    closed before the end of the source, on the last line. -/
def LexicalError.At (source : List Char) (e : LexicalError) (x : Span) : Prop :=
  (∃ c, e.cause = .unexpectedCharacter c ∧ x.text source = [c] ∧ x.stop = x.start + 1 ∧
      e.line = lineAt source x.start) ∨
    e.cause = .unterminatedString ∧ x.stop = source.length ∧ e.line = 1 + newlines source

variable {p : Piece} {rest source : List Char} {x : Span}

/-- A piece whose last character is no line break ends on the line of that character. -/
theorem Piece.At.lineAt_last (h : p.At source x) {body : List Char} {c : Char}
    (ht : p.text = body ++ [c]) (hc : c ≠ '\n') :
    source[x.stop - 1]? = some c ∧ lineAt source x.stop = lineAt source (x.stop - 1) := by
  obtain ⟨before, rest, rfl, -, rfl⟩ := h
  have hsource : before ++ (p.text ++ rest) = (before ++ body) ++ (c :: rest) := by
    rw [ht]
    simp
  have hlast : before.length + p.text.length - 1 = (before ++ body).length := by
    rw [ht, List.length_append, List.length_append, List.length_singleton]
    omega
  have hstop : before.length + p.text.length = (before ++ body ++ [c]).length := by
    rw [ht]
    simp only [List.length_append]
    omega
  have hnone : newlines [c] = 0 :=
    newlines_eq_zero fun hmem => hc (List.mem_singleton.mp hmem).symm
  show (before ++ (p.text ++ rest))[before.length + p.text.length - 1]? = some c ∧
    lineAt (before ++ (p.text ++ rest)) (before.length + p.text.length) =
      lineAt (before ++ (p.text ++ rest)) (before.length + p.text.length - 1)
  refine ⟨?_, ?_⟩
  · rw [hlast, hsource, List.getElem?_append_right (Nat.le_refl _), Nat.sub_self]
    rfl
  · rw [hlast, hstop, hsource, lineAt_append, List.append_cons, lineAt_append, newlines_append,
      hnone]
    rfl

theorem Cut.text_of_unexpected (h : Cut p rest) {c : Char} (hp : p.role = .unexpected c) :
    p.text = [c] ∧ c ≠ '\n' := by
  cases h with
  | unexpected hc =>
      cases hp
      refine ⟨rfl, ?_⟩
      rintro rfl
      cases hc.2.2.2.1
  | _ => cases hp

/-- The mark at the end of a string is its last character. -/
theorem Lexeme.text_of_string {text : List Char} {literal : Value}
    (h : Lexeme .string text literal) : ∃ body, text = body ++ [Piece.quote] := by
  cases h with
  | fixed hs => cases hs
  | @string body hb => exact ⟨Piece.quote :: body, rfl⟩

/-- What the error of a piece says of its span. -/
theorem Piece.At.error_at (h : p.At source x) {e : LexicalError} (hcause : p.cause? = some e.cause)
    (hline : e.line = lineAt source x.stop) : e.At source x := by
  obtain ⟨before, rest, hsource, hcut, hx⟩ := id h
  rcases hcut.role_cases with ⟨hnone, -⟩ | ⟨c, hrole⟩ | ⟨hrole, rfl⟩
  · rw [hnone] at hcause
    cases hcause
  · obtain ⟨htext, hc⟩ := hcut.text_of_unexpected hrole
    have hstop : x.stop = x.start + 1 := by
      rw [hx, htext]
      rfl
    rw [Piece.cause?, hrole] at hcause
    refine .inl ⟨c, (Option.some.inj hcause).symm, h.text_eq.trans htext, hstop, ?_⟩
    have hlast : p.text = [] ++ [c] := htext
    rw [hline, (h.lineAt_last hlast hc).2, hstop]
    rfl
  · have hstop : x.stop = source.length := by
      rw [hx, hsource]
      simp
    rw [Piece.cause?, hrole] at hcause
    refine .inr ⟨(Option.some.inj hcause).symm, hstop, ?_⟩
    rw [hline, hstop, lineAt_length]

theorem scan_stop_line (source : String) :
    (scan source).stream.stop.line = 1 + newlines source.toList := by
  rw [scan, scanFrom_eq]
  show countedEnd 1 (pieces source.toList) = _
  rw [countedEnd_eq, pieces_text]

/-- No piece ends behind the last line. -/
theorem countedLines_le_countedEnd : ∀ (line : Int) (ps : List Piece),
    ∀ y ∈ countedLines line ps, y.2 ≤ countedEnd line ps
  | _, [] => fun _ hy => absurd hy List.not_mem_nil
  | line, p :: ps => by
      refine List.forall_mem_cons.mpr ⟨?_, countedLines_le_countedEnd (line + newlines p.text) ps⟩
      show line + newlines p.text ≤ countedEnd (line + newlines p.text) ps
      rw [countedEnd_eq]
      omega

theorem line_le_stop {source : String} {t : Token} (h : t ∈ (scan source).stream.tokens) :
    t.line ≤ (scan source).stream.stop.line := by
  rw [scan, scanFrom_eq] at h ⊢
  obtain ⟨⟨p, n⟩, hp, ht⟩ := List.mem_filterMap.mp h
  rw [Piece.line_of_token? ht]
  exact countedLines_le_countedEnd 1 (pieces source.toList) (p, n) hp

/-- **The lines of tokens and errors are exact.** A token is on the line on which its span ends: one
    more than the number of line breaks before that, and for a string this is the line of its
    closing mark.  The end marker is on the last line.  An unexpected character is reported on its
    own line, and a string that is not closed on the last one.  So lines never go down along the
    tokens.  The spans of tokens follow one another, and so do those of errors. -/
theorem lines_are_exact (source : String) :
    let text := source.toList
    let found := scan source
    (tokenSpans text).Pairwise (·.stop ≤ ·.start) ∧ (errorSpans text).Pairwise (·.stop ≤ ·.start) ∧
    List.Forall₂ (fun (t : Token) x => t.lexeme.toList = x.text text ∧
        t.line = lineAt text x.stop ∧
        (t.kind = .string →
          text[x.stop - 1]? = some Piece.quote ∧ t.line = lineAt text (x.stop - 1)))
      found.stream.tokens (tokenSpans text) ∧
    found.stream.stop.line = 1 + newlines text ∧
    List.Forall₂ (LexicalError.At text) found.errors (errorSpans text) ∧
    found.stream.all.Pairwise (·.line ≤ ·.line) := by
  intro text found
  refine ⟨spansOf_ascend _ text, spansOf_ascend _ text, (tokens_at source).imp ?_,
    scan_stop_line source, (errors_at source).imp ?_, ?_⟩
  · rintro t x ⟨hat, hline⟩
    refine ⟨hat.text_eq.symm, hline, fun hkind => ?_⟩
    have hlexeme := hat.lexeme rfl
    rw [hkind, hat.text_eq] at hlexeme
    obtain ⟨body, hbody⟩ := hlexeme.text_of_string
    obtain ⟨hlast, hsame⟩ := hat.lineAt_last hbody (by decide)
    exact ⟨hlast, hline.trans hsame⟩
  · rintro e x ⟨⟨p, hat, hcause⟩, hline⟩
    exact hat.error_at hcause hline
  · refine List.pairwise_append.mpr ⟨scanFrom_ascends 1 text, List.pairwise_singleton _ _, ?_⟩
    intro t ht u hu
    rw [List.mem_singleton.mp hu]
    exact line_le_stop ht

/-! ## 2. Line breaks between sources -/

/-- **Scanning goes line by line.** Let a source end neither inside a string nor inside a block
    comment.  With a line break and another source behind it, it has the tokens that it has alone,
    but for the end marker, and then those of the other source, so many lines further down; and the
    same goes for the errors. -/
theorem scans_meet_at_line_breaks (a b : String)
    (hq : ∀ e ∈ (scan a).errors, e.cause ≠ .unterminatedString) (hc : ¬ EndsInComment a) :
    let joined := scan (a ++ "\n" ++ b)
    let lines : Int := 1 + newlines a.toList
    joined.stream.all =
        (scan a).stream.all.dropLast ++ (scan b).stream.all.map (Token.shift lines) ∧
      joined.errors = (scan a).errors ++ (scan b).errors.map (LexicalError.shift lines) := by
  intro joined lines
  have hlines : height a = lines := Int.add_comm _ _
  have hjoined : joined = (scan a).followedBy ((scan b).shift lines) := by
    rw [← hlines]
    exact scan_join hq hc b
  rw [hjoined]
  refine ⟨?_, rfl⟩
  rw [Token.Stream.all, Token.Stream.all, Token.Stream.all, List.dropLast_concat, List.map_append,
    ← List.append_assoc]
  rfl

/-- `x = 12.` and, on the next line, `5 @`: the point does not join the digit behind the line break,
    and the unexpected character is on the second line. -/
theorem scans_meet_behind_point :
    let a := "x = 12."
    let b := "5 @"
    let joined := scan (a ++ "\n" ++ b)
    (∀ e ∈ (scan a).errors, e.cause ≠ .unterminatedString) ∧ ¬ EndsInComment a ∧
      joined.stream.all = (scan a).stream.all.dropLast ++ (scan b).stream.all.map (Token.shift 1) ∧
      joined.errors = [⟨2, .unexpectedCharacter '@'⟩] := by
  intro a b joined
  have hq : ∀ e ∈ (scan a).errors, e.cause ≠ .unterminatedString := by decide +kernel
  have hc : ¬ EndsInComment a := by decide +kernel
  have hb : (scan b).errors = [⟨1, .unexpectedCharacter '@'⟩] := by decide +kernel
  have ha : (scan a).errors = [] := by decide +kernel
  have hlines : (1 + newlines a.toList : Int) = 1 := by decide +kernel
  obtain ⟨htokens, herrors⟩ := scans_meet_at_line_breaks a b hq hc
  rw [hlines] at htokens herrors
  rw [ha, hb] at herrors
  exact ⟨hq, hc, htokens, herrors⟩

end Lox
