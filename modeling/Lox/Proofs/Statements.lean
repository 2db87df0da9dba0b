/-
  File:      Lox/Proofs/Statements.lean
  Subject:   What the rules for statements do, said as a relation.

  Statements are read without recursion: an opening of at most three tokens, an expression, and a
  semicolon.  `ReadsStmt stop us rest reports result` holds when the rule for any statement, put
  before the tokens `us ++ rest`, takes `us`, leaves `rest`, reports `reports` and ends with
  `result`.

  * `Opening` -- what a statement with an expression begins with, and what it becomes;
  * `ReadsStmt` -- what the rule for statements does;
  * `ReadsStmt.run_eq`, `exists_readsStmt` -- the relation and the function agree on all tokens;
  * `ReadsStmt.declaration_eq` -- what a declaration makes of it;
  * `declaration_progress`, `declarations_used` -- one declaration uses some of the tokens, and
    declarations one after the other all of them.
-/
import Lox.Proofs.Reading

namespace Lox

/-! ## 1. The relation -/

/-- The tokens before the expression of a statement, the error if no semicolon follows it, and
    the statement made of it; `ts` is what follows. -/
inductive Opening (ts : List Token) :
    List Token → SyntaxError.Cause → (Expr → Stmt) → Prop
  | expression (hf : AtFront (fun t => t.kind ≠ .varWord ∧ t.kind ≠ .printWord) ts) :
      Opening ts [] .expressionUnended .expression
  | print {word} (hw : word.kind = .printWord) : Opening ts [word] .printUnended .print
  | var {word name eq} (hw : word.kind = .varWord) (hn : name.kind = .identifier)
      (hq : eq.kind = .equal) :
      Opening ts [word, name, eq] .declarationUnended (fun e => .var name (some e))

/-- The rule for any statement, put before `us ++ rest`, takes `us`, leaves `rest`, reports errors
    and ends with a result. -/
inductive ReadsStmt (stop : Token) :
    List Token → List Token → List SyntaxError → Except SyntaxError Stmt → Prop
  | ended {before us semi rest reports e cause make}
      (ho : Opening (us ++ semi :: rest) before cause make)
      (he : Reads stop (.rule .assignment) us (semi :: rest) reports (.ok e))
      (hs : semi.kind = .semicolon) :
      ReadsStmt stop (before ++ (us ++ [semi])) rest reports (.ok (make e))
  | unended {before us rest reports e cause make}
      (ho : Opening (us ++ rest) before cause make)
      (he : Reads stop (.rule .assignment) us rest reports (.ok e))
      (hf : AtFront (·.kind ≠ .semicolon) rest) :
      ReadsStmt stop (before ++ us) rest (reports ++ [⟨front stop rest, cause⟩])
        (.error ⟨front stop rest, cause⟩)
  | failed {before us rest reports err cause make}
      (ho : Opening (us ++ rest) before cause make)
      (he : Reads stop (.rule .assignment) us rest reports (.error err)) :
      ReadsStmt stop (before ++ us) rest reports (.error err)
  | declared {word name semi rest} (hw : word.kind = .varWord) (hn : name.kind = .identifier)
      (hs : semi.kind = .semicolon) :
      ReadsStmt stop [word, name, semi] rest [] (.ok (.var name none))
  | undeclared {word name rest} (hw : word.kind = .varWord) (hn : name.kind = .identifier)
      (hf : AtFront (fun t => t.kind ≠ .equal ∧ t.kind ≠ .semicolon) rest) :
      ReadsStmt stop [word, name] rest [⟨front stop rest, .declarationUnended⟩]
        (.error ⟨front stop rest, .declarationUnended⟩)
  | nameless {word rest} (hw : word.kind = .varWord)
      (hf : AtFront (·.kind ≠ .identifier) rest) :
      ReadsStmt stop [word] rest [⟨front stop rest, .nameExpected⟩]
        (.error ⟨front stop rest, .nameExpected⟩)

/-! ## 2. The function does what the relation says -/

section Run

variable {stop : Token}

theorem anyStatement_var {word : Token} (hw : word.kind = .varWord) (ts : List Token) :
    anyStatement stop (word :: ts) = (varDeclaration stop ts).behind 1 := by
  simp [anyStatement, hw]

theorem varDeclaration_named {name : Token} (hn : name.kind = .identifier) (ts : List Token) :
    varDeclaration stop (name :: ts) = (initializer stop name ts).behind 1 := by
  simp [varDeclaration, expect, hn, Step.andThen, Step.one, Step.followedBy, Step.behind]

/-- Behind its opening a statement is an expression and a semicolon. -/
theorem Opening.run_eq {ts before : List Token} {cause : SyntaxError.Cause} {make : Expr → Stmt}
    (h : Opening ts before cause make) :
    anyStatement stop (before ++ ts) = (terminated stop cause make ts).behind before.length := by
  cases h with
  | expression hf =>
      cases ts with
      | nil => simp [anyStatement, statement, expressionStatement, Step.behind]
      | cons t rest =>
          obtain ⟨hv, hp⟩ := (atFront_cons ..).mp hf
          simp [anyStatement, statement, expressionStatement, hv, hp, Step.behind]
  | print hw => simp [anyStatement, statement, printStatement, hw]
  | var hw hn hq =>
      simp only [List.cons_append, List.nil_append]
      rw [anyStatement_var hw, varDeclaration_named hn]
      simp [initializer, hq, Step.behind, ← Nat.add_assoc]

theorem terminated_ended {us rest : List Token} {semi : Token} {reports : List SyntaxError}
    {e : Expr} (cause : SyntaxError.Cause) (make : Expr → Stmt)
    (h : Reads stop (.rule .assignment) us (semi :: rest) reports (.ok e))
    (hs : semi.kind = .semicolon) :
    terminated stop cause make (us ++ semi :: rest) = ⟨us.length + 1, reports, .ok (make e)⟩ := by
  have hr : Rule.parse stop .assignment (us ++ semi :: rest) = _ := h.run_eq
  rw [terminated, Step.andThen_of_ok (by rw [hr]), hr]
  simp [expect, hs, Step.followedBy, Step.map, Step.one, Except.map]

theorem terminated_unended {us rest : List Token} {reports : List SyntaxError}
    {e : Expr} (cause : SyntaxError.Cause) (make : Expr → Stmt)
    (h : Reads stop (.rule .assignment) us rest reports (.ok e))
    (hf : AtFront (·.kind ≠ .semicolon) rest) :
    terminated stop cause make (us ++ rest) =
      ⟨us.length, reports ++ [⟨front stop rest, cause⟩], .error ⟨front stop rest, cause⟩⟩ := by
  have hr : Rule.parse stop .assignment (us ++ rest) = _ := h.run_eq
  rw [terminated, Step.andThen_of_ok (by rw [hr]), hr]
  simp [expect_front hf, Step.followedBy, Step.map, Step.fail, Except.map]

theorem terminated_failed {us rest : List Token} {reports : List SyntaxError}
    {err : SyntaxError} (cause : SyntaxError.Cause) (make : Expr → Stmt)
    (h : Reads stop (.rule .assignment) us rest reports (.error err)) :
    terminated stop cause make (us ++ rest) = ⟨us.length, reports, .error err⟩ := by
  have hr : Rule.parse stop .assignment (us ++ rest) = _ := h.run_eq
  rw [terminated, Step.andThen_of_error (by rw [hr]), hr]

/-- **The function does what the relation says.** -/
theorem ReadsStmt.run_eq {us rest : List Token} {reports : List SyntaxError}
    {result : Except SyntaxError Stmt} (h : ReadsStmt stop us rest reports result) :
    anyStatement stop (us ++ rest) = ⟨us.length, reports, result⟩ := by
  cases h with
  | @ended before us semi rest reports e cause make ho he hs =>
      have hts : before ++ (us ++ [semi]) ++ rest = before ++ (us ++ semi :: rest) := by simp
      rw [hts, ho.run_eq, terminated_ended cause make he hs]
      simp [Step.behind]
  | unended ho he hf =>
      rw [List.append_assoc, ho.run_eq, terminated_unended _ _ he hf]
      simp [Step.behind]
  | failed ho he =>
      rw [List.append_assoc, ho.run_eq, terminated_failed _ _ he]
      simp [Step.behind]
  | declared hw hn hs =>
      simp only [List.cons_append, List.nil_append]
      rw [anyStatement_var hw, varDeclaration_named hn]
      simp [initializer, hs, expect, Step.behind, Step.map, Step.one, Except.map]
  | undeclared hw hn hf =>
      simp only [List.cons_append, List.nil_append]
      rw [anyStatement_var hw, varDeclaration_named hn]
      cases rest with
      | nil => rfl
      | cons t rest =>
          obtain ⟨hq, hs⟩ := (atFront_cons ..).mp hf
          simp [initializer, hq, hs, expect, Step.behind, Step.map, Step.fail, Except.map]
  | nameless hw hf =>
      simp only [List.cons_append, List.nil_append]
      rw [anyStatement_var hw, varDeclaration, expect_front hf]
      rfl

end Run

/-! ## 3. The relation says something about all tokens -/

section Exists

variable {stop : Token}

theorem exists_readsStmt_of_opening {before ts : List Token} {cause : SyntaxError.Cause}
    {make : Expr → Stmt} (ho : Opening ts before cause make) :
    ∃ us rest reports result,
      before ++ ts = us ++ rest ∧ ReadsStmt stop us rest reports result := by
  obtain ⟨us, rest, reports, result, rfl, h⟩ := exists_reads stop (.rule .assignment) ts
  cases result with
  | error err => exact ⟨before ++ us, rest, _, _, by simp, .failed ho h⟩
  | ok e =>
      cases rest with
      | nil => exact ⟨before ++ us, [], _, _, by simp, .unended ho h (atFront_nil _)⟩
      | cons t rest =>
          by_cases hs : t.kind = .semicolon
          · exact ⟨before ++ (us ++ [t]), rest, _, _, by simp, .ended ho h hs⟩
          · exact ⟨before ++ us, t :: rest, _, _, by simp,
              .unended ho h ((atFront_cons ..).mpr hs)⟩

/-- What stands behind the word `var`, whatever it is. -/
theorem exists_readsStmt_var {word : Token} (hw : word.kind = .varWord) : ∀ ts : List Token,
    ∃ us rest reports result, word :: ts = us ++ rest ∧ ReadsStmt stop us rest reports result
  | [] => ⟨[word], [], _, _, rfl, .nameless hw (atFront_nil _)⟩
  | name :: ts => by
      by_cases hn : name.kind = .identifier
      · cases ts with
        | nil => exact ⟨[word, name], [], _, _, rfl, .undeclared hw hn (atFront_nil _)⟩
        | cons t ts =>
            by_cases hq : t.kind = .equal
            · exact exists_readsStmt_of_opening (.var hw hn hq)
            by_cases hs : t.kind = .semicolon
            · exact ⟨[word, name, t], ts, _, _, rfl, .declared hw hn hs⟩
            · exact ⟨[word, name], t :: ts, _, _, rfl,
                .undeclared hw hn ((atFront_cons ..).mpr ⟨hq, hs⟩)⟩
      · exact ⟨[word], name :: ts, _, _, rfl, .nameless hw ((atFront_cons ..).mpr hn)⟩

/-- **The relation says what a statement is read as, whatever the tokens.** -/
theorem exists_readsStmt (stop : Token) : ∀ ts : List Token,
    ∃ us rest reports result, ts = us ++ rest ∧ ReadsStmt stop us rest reports result
  | [] => exists_readsStmt_of_opening (.expression (atFront_nil _))
  | t :: ts => by
      by_cases hv : t.kind = .varWord
      · exact exists_readsStmt_var hv ts
      by_cases hp : t.kind = .printWord
      · exact exists_readsStmt_of_opening (.print hp)
      · exact exists_readsStmt_of_opening (.expression ((atFront_cons ..).mpr ⟨hv, hp⟩))

end Exists

/-! ## 4. Declarations -/

/-- What a declaration does: the statement that is read, or tokens dropped after the failure. -/
theorem ReadsStmt.declaration_eq {stop : Token} {us rest : List Token} {reports : List SyntaxError}
    {result : Except SyntaxError Stmt} (h : ReadsStmt stop us rest reports result) :
    declaration stop (us ++ rest) =
      match result with
      | .ok s => ⟨us.length, reports, some s⟩
      | .error _ => ⟨us.length + skip rest, reports, none⟩ := by
  rw [declaration, h.run_eq]
  cases result with
  | ok s => rfl
  | error err => simp

theorem skipBehind_le : ∀ (last : Token) (ts : List Token), skipBehind last ts ≤ ts.length
  | _, [] => Nat.le_refl 0
  | last, t :: rest => by
      unfold skipBehind
      split
      · exact Nat.zero_le _
      · exact Nat.succ_le_succ (skipBehind_le t rest)

theorem skip_le : ∀ ts : List Token, skip ts ≤ ts.length
  | [] => Nat.le_refl 0
  | t :: rest => Nat.succ_le_succ (skipBehind_le t rest)

/-- **A declaration makes progress and stays inside the tokens**, whether it succeeds or fails. -/
theorem declaration_progress (stop : Token) {ts : List Token} (hne : ts ≠ []) :
    ∃ us rest, ts = us ++ rest ∧ us ≠ [] ∧ (declaration stop ts).used = us.length := by
  obtain ⟨us, rest, reports, result, rfl, h⟩ := exists_readsStmt stop ts
  rw [h.declaration_eq]
  cases result with
  | ok s =>
      refine ⟨us, rest, rfl, ?_, rfl⟩
      cases h with
      | ended => simp
      | declared => simp
  | error err =>
      have hskip : (us ++ rest.take (skip rest)).length = us.length + skip rest := by
        rw [List.length_append, List.length_take, Nat.min_eq_left (skip_le rest)]
      refine ⟨us ++ rest.take (skip rest), rest.drop (skip rest), by simp, ?_, hskip.symm⟩
      -- where nothing was read, a token is left to drop
      intro hnil
      obtain ⟨rfl, htake⟩ := List.append_eq_nil_iff.mp hnil
      obtain ⟨t, others, rfl⟩ := List.exists_cons_of_ne_nil hne
      cases htake

/-- A list of declarations, its first one taken off. -/
theorem declarations_cons {stop : Token} {us rest : List Token} (hne : us ≠ [])
    (hu : (declaration stop (us ++ rest)).used = us.length) :
    declarations stop (us ++ rest) =
      declaration stop (us ++ rest) :: declarations stop rest := by
  obtain ⟨t, others, rfl⟩ := List.exists_cons_of_ne_nil hne
  rw [List.cons_append] at hu ⊢
  rw [declarations, hu]
  simp

theorem length_lt_of_append {ts us rest : List Token} (h : ts = us ++ rest) (hne : us ≠ []) :
    rest.length < ts.length := by
  rw [h, List.length_append]
  exact Nat.lt_add_of_pos_left (List.length_pos_iff.mpr hne)

/-- **Declarations use up the tokens, all of them and nothing beyond.** -/
theorem declarations_used (stop : Token) : ∀ ts : List Token,
    (declarations stop ts).foldr (fun d n => d.used + n) 0 = ts.length
  | [] => by simp [declarations]
  | t :: ts => by
      obtain ⟨us, rest, hts, hne, hu⟩ := declaration_progress stop (List.cons_ne_nil t ts)
      have hlt := length_lt_of_append hts hne
      rw [hts] at hu ⊢
      rw [declarations_cons hne hu, List.foldr_cons, hu, declarations_used stop rest,
        List.length_append]
termination_by ts => ts.length
decreasing_by exact hlt

end Lox
