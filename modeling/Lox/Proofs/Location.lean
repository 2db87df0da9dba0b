/-
  File:      Lox/Proofs/Location.lean
  Subject:   Runtime errors are located inside the statement that failed.

  The tokens of a source without errors fall into SLICES, one for each declaration, and the tree of
  a declaration keeps no token but those of its slice.  An evaluation that fails blames a token that
  its tree keeps.  So the line that is reported lies inside the slice of the failing statement.

  * `Stmt.Keeps`, `DerivesStmt.keeps` -- what a tree keeps: operators and names of its own tokens;
  * `Expr.Meaningful.eval_keeps`, `Stmt.Meaningful.exec_keeps` -- failures blame one of these;
  * `Cursor.slices`, `DerivesProgram.slices` -- the tokens passed by declarations, call by call;
  * `runtime_errors_are_located` -- where a runtime error is reported.
-/
import Lox.Proofs.ExitCode
import Lox.Proofs.Progress
import Lox.Proofs.Tiling

namespace Lox

/-! ## 1. The tokens that a tree keeps -/

/-- The expression keeps the token, as an operator or as a name. -/
def Expr.Keeps (e : Expr) (t : Token) : Prop :=
  .token t ∈ e.frontier

/-- The statement keeps the token, as an operator or as a name. -/
def Stmt.Keeps (s : Stmt) (t : Token) : Prop :=
  .token t ∈ s.frontier

/-- True of operators and names. -/
def Token.IsOperatorOrName (t : Token) : Prop :=
  t.kind ∈ unaryOperators ∨ t.kind ∈ binaryOperators ∨ t.kind = .identifier

section Keeps

variable {t op : Token} {e l r : Expr}

@[simp] theorem Expr.keeps_literal (v : Value) : ¬ (Expr.literal v).Keeps t := by
  simp [Keeps, frontier]

@[simp] theorem Expr.keeps_unary : (Expr.unary op e).Keeps t ↔ t = op ∨ e.Keeps t := by
  simp [Keeps, frontier]

@[simp] theorem Expr.keeps_binary :
    (Expr.binary l op r).Keeps t ↔ l.Keeps t ∨ t = op ∨ r.Keeps t := by
  simp [Keeps, frontier]

@[simp] theorem Expr.keeps_grouping : (Expr.grouping e).Keeps t ↔ e.Keeps t := by
  simp [Keeps, frontier]

@[simp] theorem Expr.keeps_name : (Expr.name op).Keeps t ↔ t = op := by
  simp [Keeps, frontier]

@[simp] theorem Expr.keeps_assign : (Expr.assign op e).Keeps t ↔ t = op ∨ e.Keeps t := by
  simp [Keeps, frontier]

@[simp] theorem Stmt.keeps_expression : (Stmt.expression e).Keeps t ↔ e.Keeps t := by
  simp [Keeps, Expr.Keeps, frontier]

@[simp] theorem Stmt.keeps_print : (Stmt.print e).Keeps t ↔ e.Keeps t := by
  simp [Keeps, Expr.Keeps, frontier]

@[simp] theorem Stmt.keeps_var : (Stmt.var op (some e)).Keeps t ↔ t = op ∨ e.Keeps t := by
  simp [Keeps, Expr.Keeps, frontier]

@[simp] theorem Stmt.keeps_var_none : (Stmt.var op none).Keeps t ↔ t = op := by
  simp [Keeps, frontier]

end Keeps

/-- A token among the marks is a token that they cover. -/
theorem Covering.mem_of_token {marks : List Mark} {ts : List Token} {t : Token}
    (h : Covering marks ts) (ht : .token t ∈ marks) : t ∈ ts := by
  induction h with
  | nil => cases ht
  | @cons m u ms us hm _ ih =>
      rcases List.mem_cons.mp ht with rfl | ht
      · rw [show u = t from hm]
        exact List.mem_cons_self
      · exact List.mem_cons_of_mem u (ih ht)

theorem keeps_foldLinks {t : Token} : ∀ (links : List Link) {first : Expr},
    (foldLinks first links).Keeps t →
      first.Keeps t ∨ ∃ k ∈ links, t = k.op ∨ k.tree.Keeps t
  | [], _, h => .inl h
  | k :: links, first, h => by
      rcases keeps_foldLinks links h with h | ⟨k', hk', h⟩
      · rcases Expr.keeps_binary.mp h with h | h
        · exact .inl h
        · exact .inr ⟨k, List.mem_cons_self, h⟩
      · exact .inr ⟨k', List.mem_cons_of_mem k hk', h⟩

/-- A derived expression keeps operators and names only. -/
theorem Derives.isOperatorOrName {r : Rule} {ts : List Token} {e : Expr} (h : Derives r ts e) :
    ∀ t, e.Keeps t → t.IsOperatorOrName := by
  induction h with
  | assign hn _ _ ih =>
      intro t ht
      rcases Expr.keeps_assign.mp ht with rfl | ht
      · exact .inr (.inr hn)
      · exact ih t ht
  | unassigned _ ih | primary _ ih => exact ih
  | group _ _ _ ih => exact fun t ht => ih t (Expr.keeps_grouping.mp ht)
  | chain hl _ ho _ ihf ihk =>
      intro t ht
      obtain ⟨rfl, rfl⟩ := chainRules_eq hl
      rcases keeps_foldLinks _ ht with ht | ⟨k, hk, rfl | ht⟩
      · exact ihf t ht
      · exact .inr (.inl (Level.operators_binary _ _ (ho k hk)))
      · exact ihk k hk t ht
  | unary ho _ ih =>
      intro t ht
      rcases Expr.keeps_unary.mp ht with rfl | ht
      · exact .inl (by simpa [unaryOperators] using ho)
      · exact ih t ht
  | literal => exact fun t ht => absurd ht (Expr.keeps_literal _)
  | name hn =>
      intro t ht
      rw [Expr.keeps_name.mp ht]
      exact .inr (.inr hn)

/-- **A derived statement keeps operators and names only, and they are tokens of its own.** -/
theorem DerivesStmt.keeps {ts : List Token} {s : Stmt} (h : DerivesStmt ts s) {t : Token}
    (ht : s.Keeps t) : t ∈ ts ∧ t.IsOperatorOrName := by
  refine ⟨h.covers.mem_of_token ht, ?_⟩
  cases h with
  | var _ hn =>
      rw [Stmt.keeps_var_none.mp ht]
      exact .inr (.inr hn)
  | varInit _ hn _ he =>
      rcases Stmt.keeps_var.mp ht with rfl | ht
      · exact .inr (.inr hn)
      · exact he.isOperatorOrName t ht
  | print _ he => exact he.isOperatorOrName t (Stmt.keeps_print.mp ht)
  | expression he => exact he.isOperatorOrName t (Stmt.keeps_expression.mp ht)

/-! ## 2. What a failure blames -/

theorem Settles.token_eq {t : Token} {x : Except Failure Value} {err : RuntimeError}
    (h : Settles t x) (hx : x = .error (.runtime err)) : err.token = t := by
  cases h with
  | value => cases hx
  | blame => cases hx; rfl

/-- **An expression that fails blames a token that it keeps.** -/
theorem Expr.Meaningful.eval_keeps {e : Expr} (h : e.Meaningful) {env : Env} {err : RuntimeError}
    (hfails : (e.eval env).1 = .error (.runtime err)) : e.Keeps err.token := by
  induction e generalizing env with
  | literal v => cases hfails
  | name t => exact Expr.keeps_name.mpr ((lookup_settles env t).token_eq hfails)
  | grouping e ih => exact Expr.keeps_grouping.mpr (ih h hfails)
  | assign t e ih =>
      refine Expr.keeps_assign.mpr (.inr ?_)
      rw [eval] at hfails
      split at hfails
      · cases hfails
      · rename_i f env' hev
        exact ih h (by rw [hev]; exact hfails)
  | unary op e ih =>
      rw [eval] at hfails
      split at hfails
      · exact Expr.keeps_unary.mpr (.inl ((unaryOp_settles h.1 _).token_eq hfails))
      · rename_i f env' hev
        exact Expr.keeps_unary.mpr (.inr (ih h.2 (by rw [hev]; exact hfails)))
  | binary l op r ihl ihr =>
      rw [eval] at hfails
      split at hfails
      · split at hfails
        · exact Expr.keeps_binary.mpr (.inr (.inl ((binaryOp_settles h.1 _ _).token_eq hfails)))
        · rename_i f env'' hev
          exact Expr.keeps_binary.mpr (.inr (.inr (ihr h.2.2 (by rw [hev]; exact hfails))))
      · rename_i f env' hev
        exact Expr.keeps_binary.mpr (.inl (ihl h.2.1 (by rw [hev]; exact hfails)))
  | invalid => exact h.elim
  | misplaced => exact h.elim

theorem Execution.eval_of_failed {env : Env} {e : Expr} {next : Value → Env → Execution}
    {failure : Failure} (hn : ∀ v env, (next v env).failure = none)
    (h : (ofValue env e next).failure = some failure) : (e.eval env).1 = .error failure := by
  unfold ofValue at h
  generalize e.eval env = x at h ⊢
  rcases x with ⟨f | v, env'⟩
  · cases h
    rfl
  · rw [hn v env'] at h
    cases h

/-- **A statement that fails blames a token that it keeps.** -/
theorem Stmt.Meaningful.exec_keeps {s : Stmt} (h : s.Meaningful) {echo : Bool} {env : Env}
    {err : RuntimeError} (hfails : (s.exec echo env).failure = some (.runtime err)) :
    s.Keeps err.token := by
  match s, h with
  | .expression e, h =>
      exact Stmt.keeps_expression.mpr
        (Expr.Meaningful.eval_keeps h (Execution.eval_of_failed (fun _ _ => rfl) hfails))
  | .print e, h =>
      exact Stmt.keeps_print.mpr
        (Expr.Meaningful.eval_keeps h (Execution.eval_of_failed (fun _ _ => rfl) hfails))
  | .var t (some e), h =>
      exact Stmt.keeps_var.mpr (.inr
        (Expr.Meaningful.eval_keeps h (Execution.eval_of_failed (fun _ _ => rfl) hfails)))
  | .var t none, _ => cases hfails

/-! ## 3. Slices -/

namespace Cursor

/-- The tokens that a call has passed. -/
def passed (c : Cursor) (p : Performed) : List Token :=
  c.rest.take (p.cursor.position - c.position)

/-- The tokens that calls made one after the other have passed, call by call. -/
def slices (c : Cursor) : List Performed → List (List Token)
  | [] => []
  | p :: ps => c.passed p :: p.cursor.slices ps

end Cursor

/-- **The slices of a derived program**: each declaration answers with a statement and passes the
    tokens that derive it, and together they pass all tokens. -/
theorem DerivesProgram.slices {ts : List Token} {ss : List Stmt} (h : DerivesProgram ts ss) :
    ∀ c : Cursor, c.rest = ts →
      c.declareAll.map (·.answer) = ss.map .statement ∧
      List.Forall₂ DerivesStmt (c.slices c.declareAll) ss ∧
      (c.slices c.declareAll).flatten = ts := by
  induction h with
  | nil =>
      intro c hrest
      rw [Cursor.declareAll_of_end hrest]
      exact ⟨rfl, .nil, rfl⟩
  | @cons ts us s ss hs _ ih =>
      intro c hrest
      have hd : declaration c.stream.stop c.rest = ⟨ts.length, [], some s⟩ := by
        rw [hrest]
        exact hs.declaration_eq us
      have hperform : c.perform .declaration = c.move ts.length [] (.statement s) := by
        simp only [Cursor.perform, hd]
        rfl
      have hpassed : c.passed (c.perform .declaration) = ts := by
        rw [Cursor.passed, hperform, hrest]
        simp [Cursor.move]
      have hleft : (c.perform .declaration).cursor.rest = us := by
        rw [hperform, Cursor.rest_move, hrest, List.drop_left]
      have hne : c.rest ≠ [] := by
        rw [hrest]
        exact List.append_ne_nil_of_left_ne_nil hs.ne_nil us
      obtain ⟨hanswers, hslices, hflatten⟩ := ih _ hleft
      rw [Cursor.declareAll_of_more hne, Cursor.slices, hpassed]
      refine ⟨?_, .cons hs hslices, ?_⟩
      · rw [List.map_cons, List.map_cons, hanswers, hperform]
        rfl
      · rw [List.flatten_cons, hflatten]

/-! ## 4. Lines -/

/-- On ascending lines, the line of a token is between those of the first and the last. -/
theorem exists_line_between {ts : List Token} (h : ts.Pairwise (·.line ≤ ·.line)) {t : Token}
    (ht : t ∈ ts) : ∃ first last, ts.head? = some first ∧ ts.getLast? = some last ∧
      first.line ≤ t.line ∧ t.line ≤ last.line := by
  have hne : ts ≠ [] := List.ne_nil_of_mem ht
  exact ⟨ts.head hne, ts.getLast hne,
    List.head?_eq_some_head hne, List.getLast?_eq_some_getLast hne,
    h.rel_head_of_rel_head_head ht (Int.le_refl _),
    h.rel_getLast_of_rel_getLast_getLast ht (Int.le_refl _)⟩

/-- Of two lists in relation, an element of the second has a partner at its own place. -/
theorem exists_partner {α β : Type} {R : α → β → Prop} {y : β} {before after : List β} :
    ∀ {xs : List α}, List.Forall₂ R xs (before ++ y :: after) →
      ∃ x, xs[before.length]? = some x ∧ R x y := by
  induction before with
  | nil =>
      intro xs h
      cases h with
      | cons h _ => exact ⟨_, rfl, h⟩
  | cons b before ih =>
      intro xs h
      cases h with
      | cons _ hs => exact ih hs

/-! ## 5. Where runtime errors are reported -/

/-- A runtime error that is reported is that of the execution. -/
theorem execAll_failure_of_reported {s : Session} {echo : Bool} {ss : List Stmt} {e : RuntimeError}
    (h : .runtime e ∈ (s.execute echo ss).written.diagnostics) :
    (execAll echo s.env ss).failure = some (.runtime e) := by
  unfold Session.execute at h
  generalize execAll echo s.env ss = x at h ⊢
  rcases x with ⟨out, env, _ | (e' | fault)⟩
  · cases h
  · cases List.mem_singleton.mp h
    rfl
  · cases h

/-- **Runtime errors are located inside the statement that failed.** In a source without errors, the
    declarations made one after the other each pass a slice of the tokens; the slices follow each
    other and make up all tokens before the end marker; and the operators and names that a statement
    keeps are tokens of its slice.  So whatever the variables are, a runtime error is that of a
    statement behind others that do not fail, and it is reported at an operator or a name of the
    slice of this statement, on a line between those of its first and its last token. -/
theorem runtime_errors_are_located {source : String} (h : Silent source) :
    let ss := statementsOf source
    let c := Cursor.ofScan (scan source)
    let slices := c.slices c.declareAll
    c.Declares c.declareAll (c.perform .program).cursor ∧
    c.declareAll.map (·.answer) = ss.map .statement ∧
    slices.flatten = (scan source).stream.tokens ∧
    List.Forall₂ (fun slice stmt => ∀ t, stmt.Keeps t → t ∈ slice ∧ t.IsOperatorOrName) slices ss ∧
    ∀ (env : Env) (r : Reporter) (echo : Bool) (e : RuntimeError),
      .runtime e ∈ ((⟨env, r⟩ : Session).execute echo ss).written.diagnostics →
      ∃ (i : Nat) (stmt : Stmt) (slice : List Token) (first last : Token),
        ss[i]? = some stmt ∧ slices[i]? = some slice ∧
        (execAll echo env (ss.take i)).failure = none ∧
        (stmt.exec echo (execAll echo env (ss.take i)).env).failure = some (.runtime e) ∧
        e.token ∈ slice ∧ e.token.IsOperatorOrName ∧
        slice.head? = some first ∧ slice.getLast? = some last ∧
        first.line ≤ e.token.line ∧ e.token.line ≤ last.line := by
  intro ss c slices
  have hended : c.stream.Ended := scanFrom_ended 1 source.toList
  obtain ⟨hanswers, hslices, hflatten⟩ := h.derives.slices c rfl
  refine ⟨c.declares_declareAll hended, hanswers, hflatten,
    hslices.imp fun slice stmt hstmt t => hstmt.keeps, fun env r echo e he => ?_⟩
  obtain ⟨before, failing, after, hss, hbefore, hfailing, -⟩ :=
    execAll_failed (execAll_failure_of_reported he)
  have htake : ss.take before.length = before := by
    rw [show ss = before ++ failing :: after from hss, List.take_left]
  have hstmt : ss[before.length]? = some failing := by
    rw [show ss = before ++ failing :: after from hss]
    simp
  have hparts : List.Forall₂ DerivesStmt slices (before ++ failing :: after) := hss ▸ hslices
  obtain ⟨slice, hslice, hderives⟩ := exists_partner hparts
  obtain ⟨hmem, hkind⟩ := hderives.keeps (hderives.meaningful.exec_keeps hfailing)
  -- the lines ascend through all tokens, so they ascend through a slice
  have hascends : slices.flatten.Pairwise (·.line ≤ ·.line) :=
    hflatten ▸ scanFrom_ascends 1 source.toList
  have hlines := (List.pairwise_flatten.mp hascends).1 slice (List.mem_of_getElem? hslice)
  obtain ⟨first, last, hfirst, hlast, hlow, hhigh⟩ := exists_line_between hlines hmem
  exact ⟨before.length, failing, slice, first, last, hstmt, hslice, by rw [htake]; exact hbefore,
    by rw [htake]; exact hfailing, hmem, hkind, hfirst, hlast, hlow, hhigh⟩

/-- A string of two lines, and a sum of three lines that fails on its last one. -/
theorem runtime_errors_are_located_difference :
    let source := "var a = \"x\ny\";\nprint a +\n(a\n- a);\nprint a;"
    let c := Cursor.ofScan (scan source)
    let e : RuntimeError := ⟨{ kind := .minus, lexeme := "-", line := 5 }, .operandsNotNumbers⟩
    Silent source ∧
      .runtime e ∈ (({} : Session).execute false (statementsOf source)).written.diagnostics ∧
      ∃ (i : Nat) (slice : List Token) (first last : Token),
        (c.slices c.declareAll)[i]? = some slice ∧ e.token ∈ slice ∧
        slice.head? = some first ∧ slice.getLast? = some last ∧
        first.line ≤ 5 ∧ 5 ≤ last.line := by
  intro source c e
  have hsilent : Silent source := by decide +kernel
  have hreported :
      .runtime e ∈ (({} : Session).execute false (statementsOf source)).written.diagnostics := by
    decide +kernel
  obtain ⟨-, -, -, -, hlocated⟩ := runtime_errors_are_located hsilent
  obtain ⟨i, stmt, slice, first, last, -, hslice, -, -, hmem, -, hfirst, hlast, hlow, hhigh⟩ :=
    hlocated {} {} false e hreported
  exact ⟨hsilent, hreported, i, slice, first, last, hslice, hmem, hfirst, hlast, hlow, hhigh⟩

end Lox
