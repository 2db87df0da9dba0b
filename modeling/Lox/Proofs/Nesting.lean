/-
  File:      Lox/Proofs/Nesting.lean
  Subject:   Block comments nest.

  The inside of a block comment is split into UNITS: marks of two characters that open or close a
  comment, and single characters.  No character belongs to two marks.  A comment ends behind the
  first unit with which the closing marks outnumber the opening ones, and the scanner finds this
  unit with a counter, without splitting anything.

  * `CommentUnit.split`, `CommentUnit.join` -- a text and its units;
  * `split_of_append` -- what is left of a split is the split of what is left;
  * `Runs`, `Runs.cons`, `commentBody_runs` -- how far a comment runs, told from its units;
  * `Scanning.step`, `Scanning.after` -- the scanner at work, and `scan_eq_finish`;
  * `block_comments_nest` -- what the scanner does where a comment is opened.
-/
import Lox.Proofs.Tiling

namespace Lox

/-! ## 1. Units -/

/-- What the inside of a block comment is made of. -/
inductive CommentUnit where
  | opening
  | closing
  | other (c : Char)
  deriving DecidableEq, Repr

namespace CommentUnit

/-- The text of a unit. -/
def text : CommentUnit → List Char
  | opening => ['/', '*']
  | closing => ['*', '/']
  | other c => [c]

/-- The units of a text, taken off its front one by one: a mark where a mark stands, and a single
    character elsewhere. -/
def split : List Char → List CommentUnit
  | [] => []
  | '/' :: '*' :: cs => opening :: split cs
  | '*' :: '/' :: cs => closing :: split cs
  | c :: cs => other c :: split cs

/-- The text of units, one behind the other. -/
def join (us : List CommentUnit) : List Char :=
  us.flatMap text

@[simp] theorem join_nil : join [] = [] := rfl

@[simp] theorem join_cons (u : CommentUnit) (us : List CommentUnit) :
    join (u :: us) = u.text ++ join us := rfl

/-- Nothing is lost in a split, and nothing counts twice. -/
@[simp] theorem join_split (cs : List Char) : join (split cs) = cs := by
  fun_induction split cs with
  | case1 => rfl
  | case2 cs ih | case3 cs ih | case4 c cs _ _ ih => simp [text, ih]

theorem split_tail {cs : List Char} {u : CommentUnit} {us : List CommentUnit}
    (h : split cs = u :: us) : ∃ rest, us = split rest := by
  unfold split at h
  split at h <;> cases h <;> exact ⟨_, rfl⟩

/-- What is left of a split is the split of what is left. -/
theorem split_of_append {before after : List CommentUnit} :
    ∀ {cs : List Char}, split cs = before ++ after → split (join after) = after := by
  induction before with
  | nil =>
      rintro cs rfl
      rw [join_split]
  | cons u before ih =>
      intro cs h
      obtain ⟨rest, hrest⟩ := split_tail h
      exact ih hrest.symm

/-- Where a single character is a unit, no mark begins. -/
theorem not_isMark_of_split {before after : List CommentUnit} {c d : Char} {cs rest : List Char}
    (h : split cs = before ++ other c :: after) (hd : join after = d :: rest) :
    ¬ Piece.IsMark c d := by
  have hafter := split_of_append h
  rw [join_cons, hd] at hafter
  rintro (⟨rfl, rfl⟩ | ⟨rfl, rfl⟩) <;> cases hafter

/-! ## 2. How far a comment runs -/

/-- Of the marks among the units, those that close are `depth` more than those that open. -/
def Outnumber (depth : Nat) (us : List CommentUnit) : Prop :=
  us.count closing = us.count opening + depth

/-- A comment inside of which `depth` openings are unclosed and the units `us` follow runs through
    the text: that of the fewest units that close all openings, or of all units if none do. -/
def Runs (depth : Nat) (us : List CommentUnit) (text : List Char) : Prop :=
  (∃ k, IsLeast {k | Outnumber depth (us.take k)} k ∧ text = join (us.take k)) ∨
    (∀ k, ¬ Outnumber depth (us.take k)) ∧ text = join us

/-- How many openings are unclosed behind a unit, if `depth` of them are unclosed before it. -/
def left (depth : Nat) : CommentUnit → Nat
  | opening => depth + 1
  | closing => depth - 1
  | other _ => depth

theorem not_outnumber_nil (depth : Nat) : ¬ Outnumber (depth + 1) [] := by
  simp [Outnumber]

theorem outnumber_cons (depth : Nat) (u : CommentUnit) (us : List CommentUnit) :
    Outnumber (depth + 1) (u :: us) ↔ Outnumber (u.left (depth + 1)) us := by
  unfold Outnumber
  rw [List.count_cons, List.count_cons]
  cases u with
  | opening =>
      show us.count closing + 0 = us.count opening + 1 + (depth + 1) ↔
        us.count closing = us.count opening + (depth + 2)
      omega
  | closing =>
      show us.count closing + 1 = us.count opening + 0 + (depth + 1) ↔
        us.count closing = us.count opening + depth
      omega
  | other c =>
      show us.count closing + 0 = us.count opening + 0 + (depth + 1) ↔
        us.count closing = us.count opening + (depth + 1)
      omega

/-- A comment with openings left runs through the next unit, and then as far as it does with the
    openings that are left behind this unit. -/
theorem Runs.cons {depth : Nat} {u : CommentUnit} {us : List CommentUnit} {text : List Char}
    (h : Runs (u.left (depth + 1)) us text) : Runs (depth + 1) (u :: us) (u.text ++ text) := by
  rcases h with ⟨k, ⟨hk, hleast⟩, rfl⟩ | ⟨hnone, rfl⟩
  · refine .inl ⟨k + 1, ⟨(outnumber_cons depth u _).mpr hk, fun j hj => ?_⟩, rfl⟩
    cases j with
    | zero => exact absurd hj (not_outnumber_nil depth)
    | succ j => exact Nat.succ_le_succ (hleast ((outnumber_cons depth u _).mp hj))
  · refine .inr ⟨fun j hj => ?_, rfl⟩
    cases j with
    | zero => exact not_outnumber_nil depth hj
    | succ j => exact hnone j ((outnumber_cons depth u _).mp hj)

/-- **The counter of the scanner finds the end of a comment.** -/
theorem commentBody_runs (depth : Nat) (cs : List Char) :
    Runs depth (split cs) (Piece.commentBody depth cs) := by
  -- each step of the counter takes one unit off the front
  fun_induction Piece.commentBody depth cs with
  | case1 cs => exact .inl ⟨0, ⟨rfl, fun _ _ => Nat.zero_le _⟩, rfl⟩
  | case2 depth =>
      refine .inr ⟨fun k hk => ?_, rfl⟩
      rw [split, List.take_nil] at hk
      exact not_outnumber_nil depth hk
  | case3 depth cs ih => exact Runs.cons (u := opening) ih
  | case4 depth cs ih => exact Runs.cons (u := closing) ih
  | case5 depth c cs hopen hclose ih =>
      rw [split]
      · exact Runs.cons (u := other c) ih
      · exact hopen
      · exact hclose

end CommentUnit

/-! ## 3. The scanner, piece by piece -/

/-- How far the scanner is: its place in the source, its line, and what it has found. -/
structure Scanning where
  place : Nat := 0
  line : Int := 1
  tokens : List Token := []
  errors : List LexicalError := []
  deriving DecidableEq, Repr

/-- What is made of located pieces, and of one more piece behind them. -/
theorem filterMap_countedLines_concat (f : Piece → Int → Option α) (line : Int) (ps : List Piece)
    (p : Piece) :
    ((countedLines line (ps ++ [p])).filterMap fun (p, n) => f p n) =
      ((countedLines line ps).filterMap fun (p, n) => f p n) ++
        (f p (countedEnd line ps + newlines p.text)).toList := by
  rw [countedLines_append, List.filterMap_append, countedLines, countedLines, List.filterMap_cons]
  dsimp only
  cases f p (countedEnd line ps + newlines p.text) <;> rfl

namespace Scanning

/-- One more piece read from the place of the scanner, and the line counted up in it. At the end of
    the source nothing more happens. -/
def step (source : List Char) (s : Scanning) : Scanning :=
  match source.drop s.place with
  | [] => s
  | c :: rest =>
    let p := Piece.next c rest
    let line := Piece.lineBehind s.line c rest
    { place := s.place + p.text.length
      line
      tokens := s.tokens ++ (p.token? line).toList
      errors := s.errors ++ (p.error? line).toList }

/-- The scanner behind the first `n` pieces of a source. -/
def after (source : String) : (n : Nat) → Scanning
  | 0 => {}
  | n + 1 => (after source n).step source.toList

/-- What the scanner answers when the source is behind it. -/
def finish (s : Scanning) : Scan :=
  ⟨⟨s.tokens, Token.endOn s.line⟩, s.errors⟩

/-- What the scanner has done behind pieces at the front of a source. -/
def behind (ps : List Piece) : Scanning where
  place := (ps.flatMap Piece.text).length
  line := countedEnd 1 ps
  tokens := (countedLines 1 ps).filterMap fun (p, n) => p.token? n
  errors := (countedLines 1 ps).filterMap fun (p, n) => p.error? n

end Scanning

/-- Behind some of the pieces that tile a source, the others tile what is left of it. -/
theorem Tiles.drop {source : List Char} {ps : List Piece} (h : Tiles source ps) (n : Nat) :
    Tiles (source.drop ((ps.take n).flatMap Piece.text).length) (ps.drop n) := by
  induction h generalizing n with
  | nil => simpa using Tiles.nil
  | @cons p rest ps hp ht ih =>
      cases n with
      | zero => exact .cons hp ht
      | succ n =>
          rw [List.take_succ_cons, List.flatMap_cons, List.length_append, List.drop_succ_cons,
            ← List.drop_drop, List.drop_left]
          exact ih n

namespace Scanning

theorem step_of_end {source : List Char} {s : Scanning} (h : source.drop s.place = []) :
    s.step source = s := by
  rw [step, h]

/-- **A step passes one piece.** -/
theorem step_of_cut {source : List Char} {ps : List Piece} {p : Piece} {rest : List Char}
    (hp : Cut p rest) (h : source.drop (behind ps).place = p.text ++ rest) :
    (behind ps).step source = behind (ps ++ [p]) := by
  obtain ⟨c, body, ht⟩ := List.exists_cons_of_ne_nil hp.text_ne_nil
  have hstart : source.drop (behind ps).place = c :: (body ++ rest) := by
    rw [h, ht, List.cons_append]
  have hline := Piece.lineBehind_eq (behind ps).line c (body ++ rest)
  rw [hp.next_eq ht] at hline
  rw [step, hstart]
  dsimp only
  rw [hp.next_eq ht, hline]
  rw [behind, behind, filterMap_countedLines_concat, filterMap_countedLines_concat,
    countedEnd_append, List.flatMap_append, List.length_append, List.flatMap_singleton]
  rfl

/-- The scanner behind the first pieces, told from these as a whole. -/
theorem after_eq (source : String) (n : Nat) :
    after source n = behind ((pieces source.toList).take n) := by
  induction n with
  | zero => rfl
  | succ n ih =>
      have htiles : Tiles (source.toList.drop (behind ((pieces source.toList).take n)).place) _ :=
        (pieces_tile source.toList).drop n
      rw [after, ih, List.take_add]
      generalize hrest : source.toList.drop (behind ((pieces source.toList).take n)).place = rest
        at htiles
      generalize (pieces source.toList).drop n = ps at htiles ⊢
      cases htiles with
      | nil => rw [step_of_end hrest, List.take_nil, List.append_nil]
      | cons hp _ => exact step_of_cut hp hrest

/-- **A source is scanned piece by piece.** -/
theorem scan_eq_finish (source : String) :
    scan source = (after source (pieces source.toList).length).finish := by
  rw [after_eq, List.take_length, scan, scanFrom_eq]
  rfl

/-- Where a block comment is opened, the scanner finds nothing, and is moved on behind it. -/
theorem step_of_opening {source body : List Char} {s : Scanning}
    (h : source.drop s.place = '/' :: '*' :: body) :
    s.step source =
      { s with
        place := s.place + 2 + (Piece.commentBody 1 body).length
        line := s.line + newlines (Piece.commentBody 1 body) } := by
  have hnext : Piece.next '/' ('*' :: body) = ⟨'/' :: '*' :: Piece.commentBody 1 body, .comment⟩ :=
    rfl
  have hline : Piece.lineBehind s.line '/' ('*' :: body) = Piece.commentLine s.line 1 body := rfl
  rw [step, h]
  dsimp only
  rw [hnext, hline, Piece.commentLine_eq]
  simp [Piece.token?, Piece.error?, Nat.add_assoc, Nat.add_comm 2]

end Scanning

/-! ## 4. Where a comment is opened -/

open CommentUnit in
/-- **Block comments nest.** Let the scanner have passed some pieces of a source and a block comment
    be opened at its place.  The text behind the opening falls into units, so that each character
    belongs to one unit, and to a mark if it is the first of one.  The next piece ends behind the
    fewest units among which the closing marks are one more than the opening ones; if there are no
    such units, it ends with the source.  It is no token and no error, and it leaves the scanner on
    a line as much further down as there are line breaks in it. -/
theorem block_comments_nest (source : String) (n : Nat) {body : List Char}
    (h : source.toList.drop (Scanning.after source n).place = '/' :: '*' :: body) :
    let s := Scanning.after source n
    let us := split body
    join us = body ∧
    (∀ before c after, us = before ++ other c :: after →
      ∀ d rest, join after = d :: rest → ¬ Piece.IsMark c d) ∧
    (∀ before after cs, us = before ++ after →
      (join after = '/' :: '*' :: '/' :: cs → after = opening :: split ('/' :: cs)) ∧
      (join after = '*' :: '/' :: '*' :: cs → after = closing :: split ('*' :: cs))) ∧
    (∃ skipped rest, body = skipped ++ rest ∧
      ((∃ k, IsLeast {k | (us.take k).count closing = (us.take k).count opening + 1} k ∧
          skipped = join (us.take k)) ∨
        (∀ k, (us.take k).count closing ≠ (us.take k).count opening + 1) ∧ rest = []) ∧
      Scanning.after source (n + 1) =
        { s with place := s.place + 2 + skipped.length, line := s.line + newlines skipped }) ∧
    scan source = (Scanning.after source (pieces source.toList).length).finish := by
  intro s us
  refine ⟨join_split body, fun before c after hus d rest => not_isMark_of_split hus,
    fun before after cs hus => ?_, ?_, Scanning.scan_eq_finish source⟩
  · have hafter := split_of_append hus
    refine ⟨fun hjoin => ?_, fun hjoin => ?_⟩
    · rw [hjoin] at hafter
      exact hafter.symm
    · rw [hjoin] at hafter
      exact hafter.symm
  · obtain ⟨rest, hrest⟩ := Piece.commentBody_prefix 1 body
    refine ⟨Piece.commentBody 1 body, rest, hrest, ?_, Scanning.step_of_opening h⟩
    · rcases commentBody_runs 1 body with hclosed | ⟨hopen, hall⟩
      · exact .inl hclosed
      · refine .inr ⟨hopen, ?_⟩
        rw [join_split] at hall
        rw [hall] at hrest
        exact List.self_eq_append_right.mp hrest

/-- Between `a` and `b` a comment inside a comment: the slash behind the second opening closes
    nothing. -/
theorem block_comments_nest_overlapping :
    let source := "a/*/*/\n*/*/b"
    let body := "/*/\n*/*/b".toList
    source.toList.drop (Scanning.after source 1).place = '/' :: '*' :: body ∧
      Scanning.after source 2 =
        { Scanning.after source 1 with place := 11, line := 2 } := by
  intro source body
  have hopened : source.toList.drop (Scanning.after source 1).place = '/' :: '*' :: body := by
    decide +kernel
  have hplace : (Scanning.after source 1).place = 1 := by decide +kernel
  have hline : (Scanning.after source 1).line = 1 := by decide +kernel
  let us : List CommentUnit :=
    [.opening, .other '/', .other '\n', .closing, .closing, .other 'b']
  have hunits : CommentUnit.split body = us := by decide
  have hfewer : ∀ k < 5, (us.take k).count .closing ≠ (us.take k).count .opening + 1 := by decide
  refine ⟨hopened, ?_⟩
  obtain ⟨-, -, -, ⟨skipped, rest, -, hends, hnext⟩, -⟩ := block_comments_nest source 1 hopened
  rw [hunits] at hends
  rcases hends with ⟨k, hk, rfl⟩ | ⟨hnone, -⟩
  · have hfive : k = 5 :=
      Nat.le_antisymm (hk.2 rfl) (Nat.le_of_not_lt fun hlt => hfewer k hlt hk.1)
    rw [hnext, hplace, hline, hfive]
    rfl
  · exact absurd rfl (hnone 5)

end Lox
