/-
  File:      Lox/Proofs/Labels.lean
  Subject:   The lines of tokens are only labels.

  The parser looks at the kind and the literal of a token, the evaluator at its kind and its
  lexeme, and neither at its line.  So a change of the tokens that keeps the three, put before
  either, comes out behind it: in the trees, in the errors, and nowhere else.

  * `Relabels` -- a change that keeps kind, lexeme and literal;
  * `Reads.relabel`, `ReadsStmt.relabel` -- the rules carry it along;
  * `declarations_relabel`, `Reporter.parse_relabel` -- and so do declarations and whole programs,
    those that fail included;
  * `Expr.eval_relabel`, `execAll_relabel`, `Session.execute_relabel` -- values, scopes and output
    do not change with it;
  * `Token.SameWord`, `lines_are_only_labels` -- so two streams of the same words are read and
    executed alike, whatever their lines.
-/
import Lox.Session
import Lox.Proofs.Acceptance

namespace Lox

open Token (Kind)

/-! ## 1. Changes of labels -/

/-- A change of tokens that keeps all but their lines. -/
structure Relabels (f : Token → Token) : Prop where
  kind : ∀ t, (f t).kind = t.kind
  lexeme : ∀ t, (f t).lexeme = t.lexeme
  literal : ∀ t, (f t).literal = t.literal

section Definitions

variable (f : Token → Token)

/-- The error at the changed token. -/
def SyntaxError.relabel (e : SyntaxError) : SyntaxError :=
  { e with token := f e.token }

/-- The error at the changed token. -/
def RuntimeError.relabel (e : RuntimeError) : RuntimeError :=
  { e with token := f e.token }

/-- The fault with its token changed. -/
def Fault.relabel : Fault → Fault
  | .unknownUnary op => .unknownUnary (f op)
  | .unknownBinary op => .unknownBinary (f op)
  | other => other

/-- The failure with its token changed. -/
def Failure.relabel : Failure → Failure
  | .runtime e => .runtime (e.relabel f)
  | .fault x => .fault (x.relabel f)

/-- The expression with all its tokens changed. -/
def Expr.relabel : Expr → Expr
  | .literal v => .literal v
  | .unary op e => .unary (f op) e.relabel
  | .binary l op r => .binary l.relabel (f op) r.relabel
  | .grouping e => .grouping e.relabel
  | .name t => .name (f t)
  | .assign t e => .assign (f t) e.relabel
  | .invalid => .invalid
  | .misplaced => .misplaced

/-- The statement with all its tokens changed. -/
def Stmt.relabel : Stmt → Stmt
  | .expression e => .expression (e.relabel f)
  | .print e => .print (e.relabel f)
  | .var t initial => .var (f t) (initial.map (Expr.relabel f))
  | .misplaced => .misplaced

/-- The job with the tokens of its left operand changed. -/
def Job.relabel : Job → Job
  | .rule r => .rule r
  | .operand r => .operand r
  | .chain l left => .chain l (left.relabel f)

/-- The result of a rule with all tokens changed, those of its tree by `g`. -/
def relabelResult (g : α → α) (result : Except SyntaxError α) : Except SyntaxError α :=
  (result.map g).mapError (SyntaxError.relabel f)

/-- The declaration with all tokens changed. -/
def Declaration.relabel (d : Declaration) : Declaration :=
  { d with reports := d.reports.map (SyntaxError.relabel f), tree := d.tree.map (Stmt.relabel f) }

/-- The diagnostic with its token changed. A lexical error has none. -/
def Diagnostic.relabel : Diagnostic → Diagnostic
  | .lexical e => .lexical e
  | .syntactic e => .syntactic (e.relabel f)
  | .runtime e => .runtime (e.relabel f)

/-- The program with all tokens changed. -/
def Program.relabel (p : Program) : Program :=
  { p with
    statements := p.statements.map (Stmt.relabel f)
    diagnostics := p.diagnostics.map (Diagnostic.relabel f) }

/-- The execution with the tokens of its failure changed. -/
def Execution.relabel (x : Execution) : Execution :=
  { x with failure := x.failure.map (Failure.relabel f) }

/-- The turn with the tokens of its diagnostics changed, and that of its fault. -/
def Turn.relabel (t : Turn) : Turn :=
  { t with
    written := { t.written with diagnostics := t.written.diagnostics.map (Diagnostic.relabel f) }
    fault := t.fault.map (Fault.relabel f) }

end Definitions

variable {f : Token → Token} {stop : Token} {us rest : List Token} {reports : List SyntaxError}

/-! ## 2. Expressions read -/

theorem front_relabel (f : Token → Token) (stop : Token) (ts : List Token) :
    front (f stop) (ts.map f) = f (front stop ts) := by
  cases ts <;> rfl

theorem AtFront.relabel {p : Token → Prop} {ts : List Token} (h : AtFront p ts)
    (hp : ∀ t, p t → p (f t)) : AtFront p (ts.map f) := by
  cases ts with
  | nil => exact atFront_nil p
  | cons t ts => exact (atFront_cons ..).mpr (hp t ((atFront_cons ..).mp h))

namespace Relabels

variable (hf : Relabels f)

include hf

theorem literal?_eq (t : Token) : literal? (f t) = literal? t := by
  simp only [literal?, hf.kind, hf.literal]

theorem alien {t : Token} (h : Alien t) : Alien (f t) := by
  simpa only [Alien, hf.kind, hf.literal?_eq] using h

/-- What a kind has to do with the front is kept. -/
theorem atFront (p : Kind → Prop) {ts : List Token} (h : AtFront (fun t => p t.kind) ts) :
    AtFront (fun t => p t.kind) (ts.map f) :=
  h.relabel fun t ht => by rwa [hf.kind]

end Relabels

/-- **A rule put before changed tokens does what it did, with its tokens changed.** -/
theorem Reads.relabel (hf : Relabels f) {job : Job} {result : Except SyntaxError Expr}
    (h : Reads stop job us rest reports result) :
    Reads (f stop) (job.relabel f) (us.map f) (rest.map f) (reports.map (SyntaxError.relabel f))
      (relabelResult f (Expr.relabel f) result) := by
  induction h with
  | literal ht => exact .literal (by rw [hf.literal?_eq, ht])
  | name ht => exact .name (by rw [hf.kind, ht])
  | stray ht => exact .stray (by rwa [hf.kind])
  | @alien rest hr =>
      have h : Reads (f stop) _ _ _ _ _ := .alien (hr.relabel fun _ => hf.alien)
      rwa [front_relabel] at h
  | group ho _ hc ih =>
      rw [List.map_cons, List.map_append]
      exact .group (by rw [hf.kind, ho]) ih (by rw [hf.kind, hc])
  | groupUnclosed ho _ hr ih =>
      have h := Reads.groupUnclosed (by rw [hf.kind, ho]) ih (hf.atFront (· ≠ .rightParen) hr)
      rw [front_relabel] at h
      rw [List.map_append]
      exact h
  | groupFailed ho _ ih => exact .groupFailed (by rw [hf.kind, ho]) ih
  | @prefixed op us rest reports result ho _ ih =>
      have hresult : relabelResult f (Expr.relabel f) (result.map (.unary op)) =
          (relabelResult f (Expr.relabel f) result).map (.unary (f op)) := by
        cases result <;> rfl
      rw [hresult]
      exact .prefixed (by rwa [hf.kind]) ih
  | unprefixed hr _ ih =>
      refine .unprefixed ?_ ih
      rw [← List.map_append]
      exact hf.atFront (· ∉ unaryOperators) hr
  | @steady r us rest reports result _ hs ih =>
      refine .steady ih fun err herr hus hrest => ?_
      cases result with
      | ok e => cases herr
      | error err' =>
          cases herr
          exact hs err' rfl (List.map_eq_nil_iff.mp hus) (fun h => hrest (by rw [h]; rfl))
  | @dropped r op us rest reports err later result _ hs _ ihe ihl =>
      have hresult : relabelResult f (Expr.relabel f) (result.map fun _ => .invalid) =
          (relabelResult f (Expr.relabel f) result).map fun _ => .invalid := by
        cases result <;> rfl
      rw [hresult, List.map_append]
      rw [List.map_cons, List.map_append] at ihe
      exact .dropped ihe hs ihl
  | level _ _ ihe ihl =>
      rw [List.map_append] at ihe ⊢
      rw [List.map_append]
      exact .level ihe ihl
  | levelFailed _ ih => exact .levelFailed ih
  | @chainEnd l _ _ hr => exact .chainEnd (hf.atFront (· ∉ l.operators) hr)
  | chainMore ho _ _ ihe ihl =>
      rw [List.map_append] at ihe
      rw [List.map_cons, List.map_append, List.map_append]
      exact .chainMore (by rwa [hf.kind]) ihe ihl
  | chainFailed ho _ ih => exact .chainFailed (by rwa [hf.kind]) ih
  | plain _ hr ih => exact .plain ih (hf.atFront (· ≠ .equal) hr)
  | targetFailed _ ih => exact .targetFailed ih
  | assigned _ hq _ ihe ihl =>
      rw [List.map_cons, List.map_append] at ihe
      rw [List.map_append, List.map_append, List.map_cons]
      exact .assigned ihe (by rw [hf.kind, hq]) ihl
  | @mistargeted us eq vs rest reports later e v _ hq hn _ ihe ihl =>
      have hname : ∀ n, e.relabel f ≠ .name n := by
        intro n he
        cases e with
        | name t => exact hn t rfl
        | _ => cases he
      rw [List.map_cons, List.map_append] at ihe
      rw [List.map_append, List.map_append, List.map_append, List.map_cons]
      exact .mistargeted ihe (by rw [hf.kind, hq]) hname ihl
  | valueFailed _ hq _ ihe ihl =>
      rw [List.map_cons, List.map_append] at ihe
      rw [List.map_append, List.map_append, List.map_cons]
      exact .valueFailed ihe (by rw [hf.kind, hq]) ihl

/-! ## 3. Statements read -/

/-- An opening is kept, and the statement made of it is the changed one. -/
theorem Opening.relabel (hf : Relabels f) {ts before : List Token} {cause : SyntaxError.Cause}
    {make : Expr → Stmt} (h : Opening ts before cause make) :
    ∃ make', Opening (ts.map f) (before.map f) cause make' ∧
      ∀ e, (make e).relabel f = make' (e.relabel f) := by
  cases h with
  | expression hr =>
      exact ⟨_, .expression (hf.atFront (fun k => k ≠ .varWord ∧ k ≠ .printWord) hr), fun _ => rfl⟩
  | print hw => exact ⟨_, .print (by rw [hf.kind, hw]), fun _ => rfl⟩
  | var hw hn hq =>
      exact ⟨_, .var (by rw [hf.kind, hw]) (by rw [hf.kind, hn]) (by rw [hf.kind, hq]),
        fun _ => rfl⟩

/-- **A statement read from changed tokens is the changed statement.** -/
theorem ReadsStmt.relabel (hf : Relabels f) {result : Except SyntaxError Stmt}
    (h : ReadsStmt stop us rest reports result) :
    ReadsStmt (f stop) (us.map f) (rest.map f) (reports.map (SyntaxError.relabel f))
      (relabelResult f (Stmt.relabel f) result) := by
  cases h with
  | @ended before us semi rest reports e cause make ho he hs =>
      obtain ⟨make', ho', hmake⟩ := ho.relabel hf
      have hresult : relabelResult f (Stmt.relabel f) (.ok (make e)) = .ok (make' (e.relabel f)) :=
        congrArg Except.ok (hmake e)
      rw [List.map_append, List.map_cons] at ho'
      rw [hresult, List.map_append, List.map_append]
      exact .ended ho' (he.relabel hf) (by rw [hf.kind, hs])
  | unended ho he hr =>
      obtain ⟨make', ho', -⟩ := ho.relabel hf
      rw [List.map_append] at ho'
      have h := ReadsStmt.unended ho' (he.relabel hf) (hf.atFront (· ≠ .semicolon) hr)
      rw [front_relabel] at h
      rw [List.map_append, List.map_append]
      exact h
  | failed ho he =>
      obtain ⟨make', ho', -⟩ := ho.relabel hf
      rw [List.map_append] at ho' ⊢
      exact .failed ho' (he.relabel hf)
  | declared hw hn hs =>
      exact .declared (by rw [hf.kind, hw]) (by rw [hf.kind, hn]) (by rw [hf.kind, hs])
  | undeclared hw hn hr =>
      have h : ReadsStmt (f stop) _ _ _ _ := .undeclared (by rw [hf.kind, hw]) (by rw [hf.kind, hn])
        (hf.atFront (fun k => k ≠ .equal ∧ k ≠ .semicolon) hr)
      rwa [front_relabel] at h
  | nameless hw hr =>
      have h : ReadsStmt (f stop) _ _ _ _ :=
        .nameless (by rw [hf.kind, hw]) (hf.atFront (· ≠ .identifier) hr)
      rwa [front_relabel] at h

theorem skipBehind_relabel (hf : Relabels f) : ∀ (last : Token) (ts : List Token),
    skipBehind (f last) (ts.map f) = skipBehind last ts
  | last, [] => rfl
  | last, t :: ts => by
      simp only [List.map_cons, skipBehind, hf.kind, skipBehind_relabel hf t ts]

theorem skip_relabel (hf : Relabels f) (ts : List Token) : skip (ts.map f) = skip ts := by
  cases ts with
  | nil => rfl
  | cons t ts => rw [List.map_cons, skip, skip, skipBehind_relabel hf]

/-- **A declaration of changed tokens is the changed declaration**, a failed one included. -/
theorem declaration_relabel (hf : Relabels f) (stop : Token) (ts : List Token) :
    declaration (f stop) (ts.map f) = (declaration stop ts).relabel f := by
  obtain ⟨us, rest, reports, result, rfl, h⟩ := exists_readsStmt stop ts
  rw [List.map_append, (h.relabel hf).declaration_eq, h.declaration_eq]
  cases result with
  | ok s =>
      rw [List.length_map]
      rfl
  | error err =>
      rw [skip_relabel hf, List.length_map]
      rfl

theorem declarations_relabel (hf : Relabels f) (stop : Token) (ts : List Token) :
    declarations (f stop) (ts.map f) = (declarations stop ts).map (Declaration.relabel f) := by
  fun_induction declarations stop ts with
  | case1 => simp [declarations]
  | case2 t rest d ih =>
      have hd : declaration (f stop) (f t :: rest.map f) = d.relabel f :=
        declaration_relabel hf stop (t :: rest)
      have hused : (d.relabel f).used = d.used := rfl
      rw [List.map_cons, declarations, hd, hused, ← List.map_drop, ih]
      rfl

/-- Changed tokens derive the changed program. -/
theorem DerivesProgram.relabel (hf : Relabels f) {ts : List Token} {ss : List Stmt}
    (h : DerivesProgram ts ss) : DerivesProgram (ts.map f) (ss.map (Stmt.relabel f)) := by
  -- the end marker plays no part in a program that is derived
  obtain ⟨hclean, htrees⟩ := h.declarations_eq (Token.endOn 1)
  have hrelabel := declarations_relabel hf (Token.endOn 1) ts
  have hreports : ∀ d ∈ declarations (f (Token.endOn 1)) (ts.map f), d.reports = [] := by
    rw [hrelabel, List.forall_mem_map]
    intro d hd
    rw [Declaration.relabel, hclean d hd]
    rfl
  have hprogram := derivesProgram_of_clean _ _ hreports
  rw [hrelabel, List.filterMap_map] at hprogram
  rw [← htrees, List.map_filterMap]
  exact hprogram

/-- The reporter does not look at tokens. -/
theorem Reporter.reportAll_relabel (r : Reporter) (ds : List Diagnostic) :
    r.reportAll (ds.map (Diagnostic.relabel f)) = r.reportAll ds := by
  have hreport : ∀ (r : Reporter) (d : Diagnostic), r.report (d.relabel f) = r.report d := by
    intro r d
    cases d <;> rfl
  simp only [reportAll, List.foldl_map, hreport]

/-- **A program of changed tokens is the changed program**, and the reporter is told as much. -/
theorem Reporter.parse_relabel (hf : Relabels f) (r : Reporter) (stop : Token) (ts : List Token) :
    r.parse (f stop) (ts.map f) = (r.parse stop ts).relabel f := by
  have hdiagnostics : ((declarations (f stop) (ts.map f)).flatMap (·.reports)).map
      Diagnostic.syntactic = (((declarations stop ts).flatMap (·.reports)).map
        Diagnostic.syntactic).map (Diagnostic.relabel f) := by
    rw [declarations_relabel hf, List.flatMap_map, List.map_map, List.map_flatMap, List.map_flatMap]
    simp only [Declaration.relabel, List.map_map]
    rfl
  have htrees : (declarations (f stop) (ts.map f)).filterMap (·.tree) =
      ((declarations stop ts).filterMap (·.tree)).map (Stmt.relabel f) := by
    rw [declarations_relabel hf, List.filterMap_map, List.map_filterMap]
    rfl
  have hused : (declarations (f stop) (ts.map f)).foldr (fun d n => d.used + n) 0 =
      (declarations stop ts).foldr (fun d n => d.used + n) 0 := by
    rw [declarations_relabel hf, List.foldr_map]
    rfl
  simp only [parse, Program.relabel, hdiagnostics, reportAll_relabel, htrees, hused]
  split <;> rfl

/-! ## 4. Expressions evaluated -/

section Operators

variable (hf : Relabels f) (op : Token)

include hf

theorem unaryOp_relabel (v : Value) :
    unaryOp (f op) v = (unaryOp op v).mapError (Failure.relabel f) := by
  unfold unaryOp
  rw [hf.kind]
  split <;> rfl

omit hf in
theorem onNumbers_relabel {g g' : Float → Float → Except Failure Value}
    (hg : ∀ x y, g' x y = (g x y).mapError (Failure.relabel f)) (a b : Value) :
    onNumbers (f op) g' a b = (onNumbers op g a b).mapError (Failure.relabel f) := by
  unfold onNumbers
  split
  · exact hg _ _
  · rfl

omit hf in
theorem add_relabel (a b : Value) :
    add (f op) a b = (add op a b).mapError (Failure.relabel f) := by
  unfold add
  split
  · rfl
  · split <;> rfl

omit hf in
theorem divide_relabel (x y : Float) :
    divide (f op) x y = (divide op x y).mapError (Failure.relabel f) := by
  unfold divide
  split <;> rfl

theorem binaryOp_relabel (a b : Value) :
    binaryOp (f op) a b = (binaryOp op a b).mapError (Failure.relabel f) := by
  unfold binaryOp
  rw [hf.kind]
  split
  case h_1 => exact add_relabel op a b
  case h_4 => exact onNumbers_relabel op (divide_relabel op) a b
  case h_9 | h_10 | h_11 => rfl
  all_goals
    refine onNumbers_relabel op ?_ a b
    exact fun _ _ => rfl

theorem lookup_relabel (env : Env) :
    env.lookup (f op) = (env.lookup op).mapError (Failure.relabel f) := by
  unfold Env.lookup
  rw [hf.lexeme]
  split <;> rfl

end Operators

/-- **The value of a changed expression is its value**; a failure is the changed failure. -/
theorem Expr.eval_relabel (hf : Relabels f) (e : Expr) : ∀ env : Env,
    (e.relabel f).eval env = ((e.eval env).1.mapError (Failure.relabel f), (e.eval env).2) := by
  induction e with
  | literal | invalid | misplaced => exact fun _ => rfl
  | grouping e ih => exact ih
  | name t =>
      intro env
      simp only [Expr.relabel, Expr.eval, lookup_relabel hf]
  | assign t e ih =>
      intro env
      rw [Expr.relabel, Expr.eval, Expr.eval, ih, hf.lexeme]
      rcases e.eval env with ⟨err | v, env'⟩ <;> rfl
  | unary op e ih =>
      intro env
      rw [Expr.relabel, Expr.eval, Expr.eval, ih]
      rcases e.eval env with ⟨err | v, env'⟩
      · rfl
      · simp only [Except.mapError, unaryOp_relabel hf]
  | binary l op r ihl ihr =>
      intro env
      rw [Expr.relabel, Expr.eval, Expr.eval, ihl]
      rcases l.eval env with ⟨err | a, env'⟩
      · rfl
      simp only [Except.mapError, ihr]
      rcases r.eval env' with ⟨err | b, env''⟩
      · rfl
      · simp only [binaryOp_relabel hf, Except.mapError]

/-! ## 5. Statements executed -/

theorem Execution.ofValue_relabel (hf : Relabels f) (env : Env) (e : Expr)
    {next : Value → Env → Execution} (hn : ∀ v env, (next v env).failure = none) :
    Execution.ofValue env (e.relabel f) next = (Execution.ofValue env e next).relabel f := by
  unfold Execution.ofValue
  rw [Expr.eval_relabel hf]
  rcases e.eval env with ⟨err | v, env'⟩
  · rfl
  · have h := hn v env'
    simp only [Execution.relabel, Except.mapError]
    rw [h, Option.map_none, ← h]

theorem Stmt.exec_relabel (hf : Relabels f) (echo : Bool) (env : Env) (s : Stmt) :
    (s.relabel f).exec echo env = (s.exec echo env).relabel f := by
  cases s with
  | expression e | print e => exact Execution.ofValue_relabel hf env e fun _ _ => rfl
  | var t initial =>
      cases initial with
      | none => simp [Stmt.relabel, Stmt.exec, Execution.relabel, hf.lexeme]
      | some e =>
          simp only [Stmt.relabel, Stmt.exec, Option.map_some, hf.lexeme]
          exact Execution.ofValue_relabel hf env e fun _ _ => rfl
  | misplaced => rfl

/-- **Changed statements print and bind the same**, and fail at the changed token. -/
theorem execAll_relabel (hf : Relabels f) (echo : Bool) : ∀ (env : Env) (ss : List Stmt),
    execAll echo env (ss.map (Stmt.relabel f)) = (execAll echo env ss).relabel f
  | env, [] => rfl
  | env, s :: ss => by
      rw [List.map_cons, execAll, execAll, Stmt.exec_relabel hf]
      rcases s.exec echo env with ⟨out, env', _ | failure⟩
      · simp only [Execution.relabel, Option.map_none, execAll_relabel hf echo env' ss]
      · rfl

/-- **A session executes changed statements as it does the others**, up to what it reports. -/
theorem Session.execute_relabel (hf : Relabels f) (s : Session) (echo : Bool) (ss : List Stmt) :
    s.execute echo (ss.map (Stmt.relabel f)) = (s.execute echo ss).relabel f := by
  unfold Session.execute
  rw [execAll_relabel hf]
  rcases execAll echo s.env ss with ⟨out, env, _ | (e | fault)⟩ <;> rfl

/-- The wording of a runtime error does not depend on the line. -/
theorem RuntimeError.message_relabel (hf : Relabels f) (e : RuntimeError) :
    (e.relabel f).message = e.message := by
  simp only [RuntimeError.message, RuntimeError.relabel, hf.lexeme]

/-! ## 6. The same words on other lines -/

/-- The two tokens differ in their lines at most. -/
structure Token.SameWord (t u : Token) : Prop where
  kind : t.kind = u.kind
  lexeme : t.lexeme = u.lexeme
  literal : t.literal = u.literal

/-- The token put on a line. -/
def Token.onLine (line : Int) (t : Token) : Token :=
  { t with line }

theorem relabels_onLine (line : Int) : Relabels (Token.onLine line) :=
  ⟨fun _ => rfl, fun _ => rfl, fun _ => rfl⟩

theorem Token.SameWord.onLine_eq {t u : Token} (h : t.SameWord u) (line : Int) :
    t.onLine line = u.onLine line := by
  rw [Token.onLine, Token.onLine, h.kind, h.lexeme, h.literal]

theorem Token.sameWord_of_onLine {t u : Token} {line : Int} (h : t.onLine line = u.onLine line) :
    t.SameWord u := by
  have hkind := congrArg Token.kind h
  have hlexeme := congrArg Token.lexeme h
  have hliteral := congrArg Token.literal h
  exact ⟨hkind, hlexeme, hliteral⟩

/-- The line that a diagnostic names. -/
def Diagnostic.line : Diagnostic → Int
  | .lexical e => e.line
  | .syntactic e => e.token.line
  | .runtime e => e.token.line

/-- The two diagnostics are static errors whose texts differ in the line at most. -/
def Diagnostic.SameButLine (d d' : Diagnostic) : Prop :=
  ∃ place message, d.text = staticText d.line place message ∧
    d'.text = staticText d'.line place message

theorem Diagnostic.sameButLine_of_relabel {e e' : SyntaxError} {line : Int}
    (h : (syntactic e).relabel (Token.onLine line) = (syntactic e').relabel (Token.onLine line)) :
    (syntactic e).SameButLine (syntactic e') := by
  have herror := Diagnostic.syntactic.inj h
  have htoken := congrArg SyntaxError.token herror
  have hcause := congrArg SyntaxError.cause herror
  have hword : e.token.SameWord e'.token := Token.sameWord_of_onLine htoken
  have hplace : place e.token = place e'.token := by
    rw [place, place, hword.kind, hword.lexeme]
  refine ⟨place e.token, e.cause.message, rfl, ?_⟩
  rw [hplace, show e.cause = e'.cause from hcause]
  rfl

/-- What the change of a token makes equal to a runtime error is one, with the same message. -/
theorem Diagnostic.eq_runtime_of_relabel (hf : Relabels f) {d : Diagnostic} {e : RuntimeError}
    (h : d.relabel f = (runtime e).relabel f) : ∃ e', d = .runtime e' ∧ e.message = e'.message := by
  cases d with
  | lexical | syntactic => cases h
  | runtime e' =>
      have herror := Diagnostic.runtime.inj h
      refine ⟨e', rfl, ?_⟩
      rw [← RuntimeError.message_relabel hf e, ← herror, RuntimeError.message_relabel hf]

/-- Syntax errors that are equal on one line have the same texts but for the lines. -/
theorem Diagnostic.forall₂_sameButLine {es es' : List SyntaxError} {line : Int}
    (h : (es.map syntactic).map (relabel (Token.onLine line)) =
      (es'.map syntactic).map (relabel (Token.onLine line))) :
    List.Forall₂ SameButLine (es.map syntactic) (es'.map syntactic) := by
  rw [← List.forall₂_eq_eq_eq] at h
  simp only [List.forall₂_map_left_iff, List.forall₂_map_right_iff] at h ⊢
  exact h.imp fun _ _ => sameButLine_of_relabel

/-- Where nothing or one runtime error is reported, the same is reported on other lines. -/
theorem Diagnostic.runtime_alike (hf : Relabels f) {ds ds' : List Diagnostic}
    (h : ds.map (relabel f) = ds'.map (relabel f)) (hds : ds = [] ∨ ∃ e, ds = [runtime e]) :
    ds = [] ∧ ds' = [] ∨
      ∃ e e', ds = [runtime e] ∧ ds' = [runtime e'] ∧ e.message = e'.message := by
  rcases hds with rfl | ⟨e, rfl⟩
  · exact .inl ⟨rfl, List.map_eq_nil_iff.mp h.symm⟩
  · obtain ⟨d, rfl, hsame⟩ := List.map_eq_singleton_iff.mp h.symm
    obtain ⟨e', rfl, hmessage⟩ := eq_runtime_of_relabel hf hsame
    exact .inr ⟨e, e', rfl, rfl, hmessage⟩

/-- Streams of the same words, put on one line, are the same. -/
theorem Token.Stream.onLine_eq {s s' : Token.Stream}
    (h : List.Forall₂ Token.SameWord s.all s'.all) (line : Int) :
    s.stop.onLine line = s'.stop.onLine line ∧
      s.tokens.map (Token.onLine line) = s'.tokens.map (Token.onLine line) := by
  have hall : s.all.map (Token.onLine line) = s'.all.map (Token.onLine line) := by
    rw [← List.forall₂_eq_eq_eq, List.forall₂_map_left_iff, List.forall₂_map_right_iff]
    exact h.imp fun _ _ hword => hword.onLine_eq line
  rw [all, all, List.map_append, List.map_append] at hall
  obtain ⟨htokens, hstop⟩ := List.append_inj' hall rfl
  exact ⟨List.head_eq_of_cons_eq hstop, htokens⟩

/-- Executing statements lists nothing, and reports nothing but perhaps one runtime error. -/
theorem Session.execute_written (s : Session) (echo : Bool) (ss : List Stmt) :
    (s.execute echo ss).written.listings = [] ∧ ((s.execute echo ss).written.diagnostics = [] ∨
      ∃ e, (s.execute echo ss).written.diagnostics = [.runtime e]) := by
  unfold Session.execute
  rcases execAll echo s.env ss with ⟨out, env, _ | (e | fault)⟩
  · exact ⟨rfl, .inl rfl⟩
  · exact ⟨rfl, .inr ⟨e, rfl⟩⟩
  · exact ⟨rfl, .inl rfl⟩

/-- **The lines of tokens are only labels.** Let two streams have the same words, on lines that may
    differ.  Parsed under the same reporter they give the same statements, up to the lines of their
    tokens, and as many syntax errors, of the same texts but for the lines; and the reporter
    remembers the same.  Executed from the same variables, the statements print the same and leave
    the same variables, and they fail in both or in neither, with the same message. -/
theorem lines_are_only_labels (s s' : Token.Stream) (h : List.Forall₂ Token.SameWord s.all s'.all)
    (r : Reporter) (env : Env) (echo : Bool) :
    let p := r.parse s.stop s.tokens
    let p' := r.parse s'.stop s'.tokens
    let t := (⟨env, p.reporter⟩ : Session).execute echo p.statements
    let t' := (⟨env, p'.reporter⟩ : Session).execute echo p'.statements
    (∀ line, p.statements.map (Stmt.relabel (Token.onLine line)) =
      p'.statements.map (Stmt.relabel (Token.onLine line))) ∧
    List.Forall₂ Diagnostic.SameButLine p.diagnostics p'.diagnostics ∧
    p.reporter = p'.reporter ∧
    t.written.output = t'.written.output ∧ t.session = t'.session ∧
    (t.written.diagnostics = [] ∧ t'.written.diagnostics = [] ∨
      ∃ e e', t.written.diagnostics = [.runtime e] ∧ t'.written.diagnostics = [.runtime e'] ∧
        e.message = e'.message) := by
  intro p p' t t'
  have hparse : ∀ line, p.relabel (Token.onLine line) = p'.relabel (Token.onLine line) := by
    intro line
    obtain ⟨hstop, htokens⟩ := Token.Stream.onLine_eq h line
    rw [← r.parse_relabel (relabels_onLine line), ← r.parse_relabel (relabels_onLine line), hstop,
      htokens]
  have hreporter : p.reporter = p'.reporter := by
    have hsame := congrArg Program.reporter (hparse 0)
    exact hsame
  have hstatements : ∀ line, p.statements.map (Stmt.relabel (Token.onLine line)) =
      p'.statements.map (Stmt.relabel (Token.onLine line)) :=
    fun line => congrArg Program.statements (hparse line)
  -- both turns are, up to lines, the turn of the statements put on one line
  have hturn : t.relabel (Token.onLine 0) = t'.relabel (Token.onLine 0) := by
    rw [← Session.execute_relabel (relabels_onLine 0),
      ← Session.execute_relabel (relabels_onLine 0), hreporter, hstatements]
  have hdiagnostics := congrArg Program.diagnostics (hparse 0)
  have hsession := congrArg Turn.session hturn
  have houtput := congrArg (·.written.output) hturn
  have hreports := congrArg (·.written.diagnostics) hturn
  exact ⟨hstatements, Diagnostic.forall₂_sameButLine hdiagnostics, hreporter, houtput, hsession,
    Diagnostic.runtime_alike (relabels_onLine 0) hreports (Session.execute_written _ echo _).2⟩

/-- `print a + a;` on one line, and on lines of its own for every word: `a` is not bound. -/
theorem lines_are_only_labels_unbound :
    let print (line : Int) : Token := { kind := .printWord, lexeme := "print", line }
    let a (line : Int) : Token := { kind := .identifier, lexeme := "a", line }
    let plus (line : Int) : Token := { kind := .plus, lexeme := "+", line }
    let semi (line : Int) : Token := { kind := .semicolon, lexeme := ";", line }
    let s : Token.Stream := ⟨[print 1, a 1, plus 1, a 1, semi 1], Token.endOn 1⟩
    let s' : Token.Stream := ⟨[print 1, a 2, plus 3, a 5, semi 8], Token.endOn 9⟩
    let p := ({} : Reporter).parse s.stop s.tokens
    let p' := ({} : Reporter).parse s'.stop s'.tokens
    let t := (⟨{}, p.reporter⟩ : Session).execute false p.statements
    let t' := (⟨{}, p'.reporter⟩ : Session).execute false p'.statements
    List.Forall₂ Token.SameWord s.all s'.all ∧
      t.written.diagnostics = [.runtime ⟨a 1, .undefinedVariable⟩] ∧
      (∃ e, t'.written.diagnostics = [.runtime e] ∧ e.message = "Undefined variable 'a'.") ∧
      t.session = t'.session := by
  intro print a plus semi s s' p p' t t'
  have same : ∀ kind lexeme line line',
      Token.SameWord { kind, lexeme, line } { kind, lexeme, line := line' } :=
    fun _ _ _ _ => ⟨rfl, rfl, rfl⟩
  have hwords : List.Forall₂ Token.SameWord s.all s'.all :=
    .cons (same ..) (.cons (same ..) (.cons (same ..) (.cons (same ..)
      (.cons (same ..) (.cons (same ..) .nil)))))
  have hfails : t.written.diagnostics = [.runtime ⟨a 1, .undefinedVariable⟩] := by decide +kernel
  obtain ⟨-, -, -, -, hsession, hboth⟩ := lines_are_only_labels s s' hwords {} {} false
  refine ⟨hwords, hfails, ?_, hsession⟩
  rcases hboth with ⟨hnone, -⟩ | ⟨e, e', he, he', hmessage⟩
  · cases hfails.symm.trans hnone
  · cases hfails.symm.trans he
    exact ⟨e', he', hmessage.symm.trans (by decide +kernel)⟩

end Lox
