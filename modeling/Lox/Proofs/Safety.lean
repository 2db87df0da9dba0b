/-
  File:      Lox/Proofs/Safety.lean
  Subject:   No source meets a fault.

  A fault is a tree that cannot be evaluated or shown.  The grammar derives no such tree, and a
  tree that it does not derive has been reported, so that it is not run.

  * `Expr.Meaningful`, `Stmt.Meaningful` -- the trees without faults;
  * `DerivesProgram.meaningful` -- derived trees are meaningful;
  * `Settles` -- operators and names have a value, or are themselves to blame;
  * `Stmt.Meaningful.renders`, `execAll_faultless` -- meaningful trees are shown and executed
    without fault;
  * `run_faultless` -- so is every source, in every session and under all options.
-/
import Lox.Proofs.Pieces
import Lox.Proofs.Reporting
import Lox.Session

namespace Lox

/-! ## 1. Meaningful trees -/

/-- True of the expressions that can be evaluated and shown: nothing in them was dropped or is
    misplaced, and their operators are known. -/
def Expr.Meaningful : Expr → Prop
  | .literal _ => True
  | .unary op e => op.kind ∈ unaryOperators ∧ e.Meaningful
  | .binary l op r => op.kind ∈ binaryOperators ∧ l.Meaningful ∧ r.Meaningful
  | .grouping e => e.Meaningful
  | .name _ => True
  | .assign _ e => e.Meaningful
  | .invalid => False
  | .misplaced => False

/-- True of the statements that can be executed and shown. -/
def Stmt.Meaningful : Stmt → Prop
  | .expression e => e.Meaningful
  | .print e => e.Meaningful
  | .var _ none => True
  | .var _ (some e) => e.Meaningful
  | .misplaced => False

theorem meaningful_foldLinks {l : Level} : ∀ (links : List Link) {first : Expr},
    first.Meaningful → (∀ k ∈ links, k.op.kind ∈ l.operators) →
    (∀ k ∈ links, k.tree.Meaningful) → (foldLinks first links).Meaningful
  | [], _, hf, _, _ => hf
  | k :: links, first, hf, ho, hk => by
      have hb : (Expr.binary first k.op k.tree).Meaningful :=
        ⟨l.operators_binary _ (ho k List.mem_cons_self), hf, hk k List.mem_cons_self⟩
      exact meaningful_foldLinks links hb (fun k' hm => ho k' (List.mem_cons_of_mem _ hm))
        fun k' hm => hk k' (List.mem_cons_of_mem _ hm)

theorem Derives.meaningful {r : Rule} {ts : List Token} {e : Expr} (h : Derives r ts e) :
    e.Meaningful := by
  induction h with
  | assign _ _ _ ih | unassigned _ ih | primary _ ih | group _ _ _ ih => exact ih
  | chain hl _ ho _ ihf ihk =>
      obtain ⟨rfl, rfl⟩ := chainRules_eq hl
      exact meaningful_foldLinks _ ihf ho ihk
  | unary ho _ ih => exact ⟨by simpa [unaryOperators] using ho, ih⟩
  | literal | name => trivial

theorem DerivesStmt.meaningful {ts : List Token} {s : Stmt} (h : DerivesStmt ts s) :
    s.Meaningful := by
  cases h with
  | var => trivial
  | varInit _ _ _ he | print _ he | expression he => exact he.meaningful

/-- **Derived trees are meaningful.** -/
theorem DerivesProgram.meaningful {ts : List Token} {ss : List Stmt} (h : DerivesProgram ts ss) :
    ∀ s ∈ ss, s.Meaningful := by
  induction h with
  | nil => exact fun s hs => absurd hs List.not_mem_nil
  | cons hs _ ih => exact List.forall_mem_cons.mpr ⟨hs.meaningful, ih⟩

/-! ## 2. Showing -/

theorem Expr.Meaningful.renders : ∀ {e : Expr}, e.Meaningful → ∃ text, e.render = .ok text
  | .literal v, _ => ⟨v.text, rfl⟩
  | .name t, _ => ⟨t.lexeme, rfl⟩
  | .unary op e, h => by
      obtain ⟨text, he⟩ := renders h.2
      exact ⟨_, by rw [render, he]; rfl⟩
  | .binary l op r, h => by
      obtain ⟨left, hl⟩ := renders h.2.1
      obtain ⟨right, hr⟩ := renders h.2.2
      exact ⟨_, by rw [render, hl, hr]; rfl⟩
  | .grouping e, h => by
      obtain ⟨text, he⟩ := renders (e := e) h
      exact ⟨_, by rw [render, he]; rfl⟩
  | .assign t e, h => by
      obtain ⟨text, he⟩ := renders (e := e) h
      exact ⟨_, by rw [render, he]; rfl⟩

theorem Stmt.Meaningful.renders {s : Stmt} (h : s.Meaningful) : ∃ text, s.render = .ok text := by
  match s, h with
  | .var t none, _ => exact ⟨_, rfl⟩
  | .expression e, h | .print e, h | .var t (some e), h =>
      obtain ⟨text, he⟩ := Expr.Meaningful.renders (e := e) h
      exact ⟨_, by rw [render, he]; rfl⟩

theorem renderAll_ok : ∀ {ss : List Stmt}, (∀ s ∈ ss, s.Meaningful) →
    ∃ shown, ss.mapM Stmt.render = .ok shown
  | [], _ => ⟨[], rfl⟩
  | s :: ss, h => by
      obtain ⟨text, hs⟩ := (h s List.mem_cons_self).renders
      obtain ⟨shown, hss⟩ := renderAll_ok fun s' hm => h s' (List.mem_cons_of_mem s hm)
      exact ⟨text :: shown, by rw [List.mapM_cons, hs, hss]; rfl⟩

/-! ## 3. Evaluating -/

/-- The outcome is no fault: it is a value or a runtime error. -/
def Faultless (x : Except Failure Value) : Prop :=
  ∀ f, x ≠ .error (.fault f)

theorem faultless_ok (v : Value) : Faultless (.ok v) :=
  fun _ h => nomatch h

/-- What an operator or a name comes to: a value, or an error at its own token. -/
inductive Settles (t : Token) : Except Failure Value → Prop
  | value (v : Value) : Settles t (.ok v)
  | blame (cause : RuntimeError.Cause) : Settles t (.error (.blame t cause))

theorem Settles.faultless {t : Token} {x : Except Failure Value} (h : Settles t x) :
    Faultless x := by
  intro f hf
  cases h <;> cases hf

theorem unaryOp_settles {op : Token} (h : op.kind ∈ unaryOperators) (v : Value) :
    Settles op (unaryOp op v) := by
  unfold unaryOp
  split
  · exact .value _
  · exact .value _
  · exact .blame _
  · simp_all [unaryOperators]

theorem onNumbers_settles {op : Token} {f : Float → Float → Except Failure Value}
    (hf : ∀ x y, Settles op (f x y)) (a b : Value) : Settles op (onNumbers op f a b) := by
  unfold onNumbers
  split
  · exact hf _ _
  · exact .blame _

theorem divide_settles (op : Token) (x y : Float) : Settles op (divide op x y) := by
  unfold divide
  split
  · exact .blame _
  · exact .value _

theorem add_settles (op : Token) (a b : Value) : Settles op (add op a b) := by
  unfold add
  split
  · exact .value _
  · split
    · exact .value _
    · exact .blame _

theorem binaryOp_settles {op : Token} (h : op.kind ∈ binaryOperators) (a b : Value) :
    Settles op (binaryOp op a b) := by
  unfold binaryOp
  split
  case h_1 => exact add_settles op a b
  case h_4 => exact onNumbers_settles (divide_settles op) a b
  case h_9 | h_10 => exact .value _
  case h_11 => simp_all [binaryOperators]
  all_goals exact onNumbers_settles (fun _ _ => .value _) a b

theorem lookup_settles (env : Env) (t : Token) : Settles t (env.lookup t) := by
  unfold Env.lookup
  split
  · exact .value _
  · exact .blame _

/-- **A meaningful expression has a value or a runtime error.** -/
theorem Expr.Meaningful.eval_faultless {e : Expr} (h : e.Meaningful) (env : Env) :
    Faultless (e.eval env).1 := by
  induction e generalizing env with
  | literal v => exact faultless_ok v
  | name t => exact (lookup_settles env t).faultless
  | grouping e ih => exact ih h env
  | assign t e ih =>
      have he := ih h env
      rw [eval]
      split
      · exact faultless_ok _
      · rename_i f env' hev
        rwa [hev] at he
  | unary op e ih =>
      have he := ih h.2 env
      rw [eval]
      split
      · exact (unaryOp_settles h.1 _).faultless
      · rename_i f env' hev
        rwa [hev] at he
  | binary l op r ihl ihr =>
      have hl := ihl h.2.1 env
      rw [eval]
      split
      · rename_i a env' _
        have hr := ihr h.2.2 env'
        split
        · exact (binaryOp_settles h.1 _ _).faultless
        · rename_i f env'' hev
          rwa [hev] at hr
      · rename_i f env' hev
        rwa [hev] at hl
  | invalid => exact h.elim
  | misplaced => exact h.elim

/-! ## 4. Executing -/

theorem ofValue_faultless {e : Expr} (he : e.Meaningful) (env : Env)
    {next : Value → Env → Execution} (hn : ∀ v env f, (next v env).failure ≠ some (.fault f))
    (f : Fault) : (Execution.ofValue env e next).failure ≠ some (.fault f) := by
  have hev := he.eval_faultless env
  unfold Execution.ofValue
  split
  · exact hn _ _ f
  · rename_i g env' hx
    rw [hx] at hev
    intro hg
    cases hg
    exact hev f rfl

theorem Stmt.Meaningful.exec_faultless {s : Stmt} (h : s.Meaningful) (echo : Bool) (env : Env)
    (f : Fault) : (s.exec echo env).failure ≠ some (.fault f) := by
  match s, h with
  | .expression e, h => exact ofValue_faultless h env (fun _ _ _ => by simp) f
  | .print e, h => exact ofValue_faultless h env (fun _ _ _ => by simp) f
  | .var t (some e), h => exact ofValue_faultless h env (fun _ _ _ => by simp) f
  | .var t none, _ => exact fun hf => nomatch hf

/-- **Meaningful statements are executed without a fault.** -/
theorem execAll_faultless (echo : Bool) (f : Fault) : ∀ (ss : List Stmt) (env : Env),
    (∀ s ∈ ss, s.Meaningful) → (execAll echo env ss).failure ≠ some (.fault f)
  | [], _, _ => fun hf => nomatch hf
  | s :: ss, env, h => by
      have hs := (h s List.mem_cons_self).exec_faultless echo env f
      rw [execAll]
      split
      · exact execAll_faultless echo f ss _ fun s' hm => h s' (List.mem_cons_of_mem s hm)
      · exact hs

/-! ## 5. Sources -/

theorem execute_faultless {ss : List Stmt} (h : ∀ s ∈ ss, s.Meaningful) (s : Session)
    (echo : Bool) : (s.execute echo ss).fault = none := by
  unfold Session.execute
  simp only
  split
  · rfl
  · rfl
  · rename_i f hf
    exact absurd hf (execAll_faultless echo f ss s.env h)

theorem present_faultless {ss : List Stmt} (h : ∀ s ∈ ss, s.Meaningful) (s : Session)
    (o : Options) : (s.present o ss).fault = none := by
  unfold Session.present
  simp only
  split
  · obtain ⟨shown, hshown⟩ := renderAll_ok h
    rw [hshown]
    exact execute_faultless h s _
  · exact execute_faultless h s _

/-- What is executed tells the reporter just what it writes. -/
theorem execute_reporter (s : Session) (echo : Bool) (ss : List Stmt) :
    (s.execute echo ss).session.reporter =
      s.reporter.reportAll (s.execute echo ss).written.diagnostics := by
  unfold Session.execute
  simp only
  split <;> rfl

theorem present_reporter (s : Session) (o : Options) (ss : List Stmt) :
    (s.present o ss).session.reporter =
      s.reporter.reportAll (s.present o ss).written.diagnostics := by
  unfold Session.present
  simp only
  split
  · split
    · exact execute_reporter s _ ss
    · rfl
  · exact execute_reporter s _ ss

/-- **A run tells the reporter just what it writes.** -/
theorem run_reporter (s : Session) (o : Options) (source : String) :
    (s.run o source).session.reporter =
      s.reporter.reportAll (s.run o source).written.diagnostics := by
  simp only [Session.run, Turn.behind, Reporter.reportAll_append]
  rw [← Reporter.read_reporter]
  split
  · rfl
  · exact present_reporter _ o _

/-- A job put before some tokens stays inside them. -/
theorem run_used_le (stop : Token) (job : Job) (ts : List Token) :
    (job.run stop ts).used ≤ ts.length := by
  obtain ⟨us, rest, hts, hu, -⟩ := reads_run stop job ts
  have hlen : ts.length = us.length + rest.length := by rw [hts, List.length_append]
  omega

/-- **No source meets a fault**, in any session and under all options: what goes wrong is just what
    the reporter is told.  The scanner cuts the source into stretches of itself, no rule reads past
    the end marker wherever it is called, and the parser stops exactly there. -/
theorem run_faultless (s : Session) (o : Options) (source : String) :
    (s.run o source).fault = none ∧
    (s.run o source).session.reporter =
      s.reporter.reportAll (s.run o source).written.diagnostics ∧
    (pieces source.toList).flatMap Piece.text = source.toList ∧
    (∀ (job : Job) (n : Nat),
      (job.run (scan source).stream.stop ((scan source).stream.tokens.drop n)).used ≤
        ((scan source).stream.tokens.drop n).length) ∧
    (s.reporter.read source).program.used = (scan source).stream.tokens.length := by
  refine ⟨?_, run_reporter s o source, pieces_text _, fun job n => run_used_le _ job _,
    declarations_used _ _⟩
  simp only [Session.run, Turn.behind]
  split
  · rfl
  · rename_i hflag
    obtain ⟨hr, hclean⟩ := Reporter.read_of_unflagged (Bool.not_eq_true _ ▸ hflag)
    exact present_faultless (Reporter.read_of_clean hr hclean).meaningful _ o

end Lox
