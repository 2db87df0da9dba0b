/-
  File:      Lox/Proofs/Parentheses.lean
  Subject:   Full parentheses keep the meaning of an expression.

  A tree need not be one that the grammar derives: an assignment may be the operand of an operator,
  and a chain may lean to the right.  WRITTEN OUT, with parentheses around every operand, each
  such tree has tokens that the grammar derives, and what is read from them differs from the tree
  by groupings only.

  * `Expr.bare`, `Expr.eval_bare` -- a tree without its groupings has the same value;
  * `Expr.writtenOut`, `Expr.grouped` -- the marks of a tree written out, and the tree behind them;
  * `Covering.derives` -- tokens with these marks derive that tree;
  * `parentheses_keep_meaning` -- what is read from them means what the tree means.
-/
import Lox.Proofs.Safety
import Lox.Tree.Cursor

namespace Lox

open Token (Kind)

/-! ## 1. Groupings -/

/-- An expression without its groupings. -/
def Expr.bare : Expr → Expr
  | .literal v => .literal v
  | .unary op e => .unary op e.bare
  | .binary l op r => .binary l.bare op r.bare
  | .grouping e => e.bare
  | .name t => .name t
  | .assign t e => .assign t e.bare
  | .invalid => .invalid
  | .misplaced => .misplaced

/-- **Groupings play no part in an evaluation**, however it ends. -/
theorem Expr.eval_bare (e : Expr) (env : Env) : e.bare.eval env = e.eval env := by
  induction e generalizing env with
  | literal | name | invalid | misplaced => rfl
  | grouping e ih => exact ih env
  | unary op e ih => simp only [bare, eval, ih]
  | assign t e ih => simp only [bare, eval, ih]
  | binary l op r ihl ihr => simp only [bare, eval, ihl, ihr]

/-- Trees that differ by groupings only mean the same. -/
theorem Expr.eval_eq_of_bare {e e' : Expr} (h : e.bare = e'.bare) (env : Env) :
    e.eval env = e'.eval env := by
  rw [← e.eval_bare, h, e'.eval_bare]

/-! ## 2. Expressions written out -/

/-- True of the expressions whose names and targets are identifiers. -/
def Expr.WellNamed : Expr → Prop
  | .name t => t.kind = .identifier
  | .assign t e => t.kind = .identifier ∧ e.WellNamed
  | .unary _ e => e.WellNamed
  | .binary l _ r => l.WellNamed ∧ r.WellNamed
  | .grouping e => e.WellNamed
  | _ => True

/-- The marks in a pair of parentheses. -/
def Mark.enclosed (ms : List Mark) : List Mark :=
  .kind .leftParen :: (ms ++ [.kind .rightParen])

/-- The marks of an expression with parentheses around every operand. A literal or a name is one
    token, and the value of an assignment stands as it is. -/
def Expr.writtenOut : Expr → List Mark
  | .literal v => [.value v]
  | .name t => [.token t]
  | .grouping e => Mark.enclosed e.writtenOut
  | .unary op e => .token op :: Mark.enclosed e.writtenOut
  | .binary l op r => Mark.enclosed l.writtenOut ++ .token op :: Mark.enclosed r.writtenOut
  | .assign t e => .token t :: .kind .equal :: e.writtenOut
  | .invalid => []
  | .misplaced => []

/-- The tree of an expression written out: its operands are groupings. -/
def Expr.grouped : Expr → Expr
  | .literal v => .literal v
  | .name t => .name t
  | .grouping e => .grouping e.grouped
  | .unary op e => .unary op (.grouping e.grouped)
  | .binary l op r => .binary (.grouping l.grouped) op (.grouping r.grouped)
  | .assign t e => .assign t e.grouped
  | .invalid => .invalid
  | .misplaced => .misplaced

theorem Expr.bare_grouped (e : Expr) : e.grouped.bare = e.bare := by
  induction e with
  | literal | name | invalid | misplaced => rfl
  | grouping e ih => exact ih
  | unary op e ih => simp only [grouped, bare, ih]
  | assign t e ih => simp only [grouped, bare, ih]
  | binary l op r ihl ihr => simp only [grouped, bare, ihl, ihr]

/-! ## 3. Tokens with given marks -/

theorem exists_denotes : ∀ v : Value, ∃ t, Denotes t v
  | .nil => ⟨{ kind := .nilWord, lexeme := "nil" }, .nilWord rfl⟩
  | .bool true => ⟨{ kind := .trueWord, lexeme := "true" }, .trueWord rfl⟩
  | .bool false => ⟨{ kind := .falseWord, lexeme := "false" }, .falseWord rfl⟩
  | .number x => ⟨{ kind := .number, lexeme := "", literal := .number x }, .number rfl⟩
  | .string s => ⟨{ kind := .string, lexeme := "", literal := .string s }, .string rfl⟩

theorem Mark.exists_covers : ∀ m : Mark, ∃ t, m.Covers t
  | .token t => ⟨t, rfl⟩
  | .value v => exists_denotes v
  | .kind k => ⟨{ kind := k, lexeme := "" }, rfl⟩

/-- Every list of marks is that of some tokens. -/
theorem exists_covering : ∀ ms : List Mark, ∃ ts, Covering ms ts
  | [] => ⟨[], .nil⟩
  | m :: ms => by
      obtain ⟨t, ht⟩ := m.exists_covers
      obtain ⟨ts, hts⟩ := exists_covering ms
      exact ⟨t :: ts, .cons ht hts⟩

theorem Covering.split : ∀ {ms ns : List Mark} {ts : List Token}, Covering (ms ++ ns) ts →
    ∃ us vs, ts = us ++ vs ∧ Covering ms us ∧ Covering ns vs
  | [], _, ts, h => ⟨[], ts, rfl, .nil, h⟩
  | m :: ms, ns, t :: _, .cons ht hts => by
      obtain ⟨us, vs, rfl, hus, hvs⟩ := split hts
      exact ⟨t :: us, vs, rfl, .cons ht hus, hvs⟩

/-- Tokens in parentheses, taken out of them. -/
theorem Covering.enclosed {ms : List Mark} {ts : List Token} (h : Covering (Mark.enclosed ms) ts) :
    ∃ opening us closing, ts = opening :: (us ++ [closing]) ∧ opening.kind = .leftParen ∧
      Covering ms us ∧ closing.kind = .rightParen := by
  cases h with
  | cons ho hinner =>
      obtain ⟨us, vs, rfl, hus, hvs⟩ := Covering.split hinner
      cases hvs with
      | cons hc hnone =>
          cases hnone
          exact ⟨_, us, _, rfl, ho, hus, hc⟩

/-! ## 4. The tree behind the marks -/

section Derives

variable {ts : List Token} {e : Expr}

/-- A level derives an expression as it is. -/
theorem Derives.of_level {l : Level} (h : Derives (.binary l) ts e) : Derives .assignment ts e := by
  have equality : ∀ {ts e}, Derives (.binary .comparison) ts e → Derives .assignment ts e :=
    fun h => .unassigned (.lone (chainRules_mem .equality) h)
  have comparison : ∀ {ts e}, Derives (.binary .term) ts e → Derives .assignment ts e :=
    fun h => equality (.lone (chainRules_mem .comparison) h)
  cases l with
  | equality => exact .unassigned h
  | comparison => exact equality h
  | term => exact comparison h
  | factor => exact comparison (.lone (chainRules_mem .term) h)

theorem Derives.of_unary (h : Derives .unary ts e) : Derives .assignment ts e :=
  .of_level (l := .factor) (.lone (chainRules_mem .factor) h)

/-- A primary expression is an operand on every level. -/
theorem Derives.operand (h : Derives .primary ts e) (l : Level) : Derives l.operandRule ts e := by
  have factor : Derives (.binary .factor) ts e := .lone (chainRules_mem .factor) (.primary h)
  have term : Derives (.binary .term) ts e := .lone (chainRules_mem .term) factor
  cases l with
  | equality => exact .lone (chainRules_mem .comparison) term
  | comparison => exact term
  | term => exact factor
  | factor => exact .primary h

/-- The binary operators are those of the levels, from the loosest to the tightest. -/
theorem exists_level {k : Kind} (h : k ∈ binaryOperators) : ∃ l : Level, k ∈ l.operators := by
  have hlevels : binaryOperators =
      [Level.equality, .comparison, .term, .factor].flatMap Level.operators := rfl
  rw [hlevels] at h
  obtain ⟨l, -, hl⟩ := List.mem_flatMap.mp h
  exact ⟨l, hl⟩

/-- Two operands in parentheses and an operator between them, on whichever level it stands. -/
theorem Derives.of_operands {us vs : List Token} {left right : Expr} {op : Token}
    (ho : op.kind ∈ binaryOperators) (hl : Derives .primary us left)
    (hr : Derives .primary vs right) :
    Derives .assignment (us ++ op :: vs) (.binary left op right) := by
  obtain ⟨l, hl'⟩ := exists_level ho
  have hchain : Derives (.binary l) (us ++ [⟨op, vs, right⟩].flatMap Link.all)
      (foldLinks left [⟨op, vs, right⟩]) :=
    .chain (chainRules_mem l) (hl.operand l) (List.forall_mem_singleton.mpr hl')
      (List.forall_mem_singleton.mpr (hr.operand l))
  simpa [foldLinks, Link.all] using hchain.of_level

/-- What stands in parentheses is a primary expression, whatever it is. -/
theorem Derives.of_enclosed {ms : List Mark} {ts : List Token} {e : Expr}
    (h : Covering (Mark.enclosed ms) ts)
    (he : ∀ {us : List Token}, Covering ms us → Derives .assignment us e) :
    Derives .primary ts (.grouping e) := by
  obtain ⟨opening, us, closing, rfl, ho, hus, hc⟩ := h.enclosed
  exact .group ho (he hus) hc

/-- **Tokens with the marks of an expression written out derive it**, with its operands
    grouped. -/
theorem Covering.derives {e : Expr} (he : e.Meaningful) (hn : e.WellNamed) :
    ∀ {ts : List Token}, Covering e.writtenOut ts → Derives .assignment ts e.grouped := by
  induction e with
  | literal v =>
      intro ts h
      cases h with
      | cons ht hnone =>
          cases hnone
          exact .of_unary (.primary (.literal ht))
  | name t =>
      intro ts h
      cases h with
      | cons ht hnone =>
          cases ht
          cases hnone
          exact .of_unary (.primary (.name hn))
  | grouping e ih =>
      intro ts h
      exact .of_unary (.primary (.of_enclosed h (ih he hn)))
  | unary op e ih =>
      intro ts h
      cases h with
      | cons ho hus =>
          cases ho
          have hop : op.kind = .bang ∨ op.kind = .minus := by simpa [unaryOperators] using he.1
          exact .of_unary (.unary hop (.primary (.of_enclosed hus (ih he.2 hn))))
  | binary l op r ihl ihr =>
      intro ts h
      obtain ⟨us, vs, rfl, hus, hvs⟩ := Covering.split h
      cases hvs with
      | cons ho hvs =>
          cases ho
          exact .of_operands he.1 (.of_enclosed hus (ihl he.2.1 hn.1))
            (.of_enclosed hvs (ihr he.2.2 hn.2))
  | assign t e ih =>
      intro ts h
      cases h with
      | cons ht h =>
          cases ht
          cases h with
          | cons hq hus => exact .assign hn.1 hq (ih he hn.2 hus)
  | invalid => exact he.elim
  | misplaced => exact he.elim

end Derives

/-! ## 5. What is read -/

/-- A derived expression is read up to the semicolon behind it, and nothing is reported. -/
theorem Derives.perform_eq {ts : List Token} {e : Expr} (h : Derives .assignment ts e)
    {semi : Token} (hs : semi.kind = .semicolon) (stop : Token) (r : Reporter) :
    let c : Cursor := { stream := ⟨ts ++ [semi], stop⟩, reporter := r }
    c.perform (.rule .assignment) =
      { cursor := { c with position := ts.length }, answer := .expression e } := by
  intro c
  have hreads : Reads stop (.rule .assignment) ts [semi] [] (.ok e) :=
    h.reads [semi] (by simp [hs, Rule.continuations, binaryOperators])
  have hparse : Rule.parse stop .assignment (ts ++ [semi]) = ⟨ts.length, [], .ok e⟩ :=
    hreads.run_eq
  simp [c, Cursor.perform, Cursor.take, Cursor.move, Cursor.rest, hparse, Reporter.reportAll]

/-- **Full parentheses keep the meaning of an expression.** Every meaningful expression whose names
    are identifiers can be written out.  However its tokens are chosen, with a semicolon behind
    them they are read up to the semicolon and without a report; the tree that is read is the
    expression itself but for groupings, and in every scope it has the same value, or the same
    error, and leaves the same scope. -/
theorem parentheses_keep_meaning (e : Expr) (he : e.Meaningful) (hn : e.WellNamed) :
    (∃ ts, Covering e.writtenOut ts) ∧
    ∀ (ts : List Token) (semi stop : Token) (r : Reporter),
      Covering e.writtenOut ts → semi.kind = .semicolon →
      let c : Cursor := { stream := ⟨ts ++ [semi], stop⟩, reporter := r }
      let after : Cursor := { c with position := ts.length }
      ∃ e', c.perform (.rule .assignment) =
          { cursor := after, answer := .expression e', diagnostics := [] } ∧
        after.peek = semi ∧ e'.bare = e.bare ∧ ∀ env, e'.eval env = e.eval env := by
  refine ⟨exists_covering _, fun ts semi stop r hts hs => ?_⟩
  have hread := (Covering.derives he hn hts).perform_eq hs stop r
  refine ⟨e.grouped, hread, ?_, e.bare_grouped, Expr.eval_eq_of_bare e.bare_grouped⟩
  simp [Cursor.peek, Cursor.rest]

/-- `(x = 1) - ((x) - (-(y)))`: an assignment as an operand, and a chain that leans to the
    right. -/
theorem parentheses_keep_difference :
    let x : Token := { kind := .identifier, lexeme := "x" }
    let y : Token := { kind := .identifier, lexeme := "y", line := 2 }
    let one : Token := { kind := .number, lexeme := "1", literal := .number 1 }
    let minus : Token := { kind := .minus, lexeme := "-" }
    let eq : Token := { kind := .equal, lexeme := "=" }
    let opening : Token := { kind := .leftParen, lexeme := "(" }
    let closing : Token := { kind := .rightParen, lexeme := ")" }
    let semi : Token := { kind := .semicolon, lexeme := ";" }
    let e : Expr := .binary (.assign x (.literal (.number 1))) minus
      (.binary (.name x) minus (.unary minus (.name y)))
    let ts : List Token := [opening, x, eq, one, closing, minus, opening, opening, x, closing,
      minus, opening, minus, opening, y, closing, closing, closing]
    let c : Cursor := { stream := ⟨ts ++ [semi], Token.endOn 2⟩ }
    e.Meaningful ∧ e.WellNamed ∧ Covering e.writtenOut ts ∧
      ∃ e', (c.perform (.rule .assignment)).answer = .expression e' ∧
        (c.perform (.rule .assignment)).cursor.position = 18 ∧ e'.bare = e.bare ∧
        ∀ env, e'.eval env = e.eval env := by
  intro x y one minus eq opening closing semi e ts c
  have he : e.Meaningful := by simp [e, Expr.Meaningful, minus, binaryOperators, unaryOperators]
  have hn : e.WellNamed := by simp [e, Expr.WellNamed, x, y]
  have hone : Denotes one (.number 1) := .number rfl
  have hts : Covering e.writtenOut ts := by
    simp [e, ts, Expr.writtenOut, Mark.enclosed, Mark.Covers, opening, closing, eq, hone]
  obtain ⟨e', hread, -, hbare, heval⟩ :=
    (parentheses_keep_meaning e he hn).2 ts semi (Token.endOn 2) {} hts rfl
  refine ⟨he, hn, hts, e', ?_, ?_, hbare, heval⟩
  · rw [hread]
  · rw [hread]
    rfl

end Lox
