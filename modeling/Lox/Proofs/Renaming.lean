/-
  File:      Lox/Proofs/Renaming.lean
  Subject:   The names of variables are only names.

  A consistent renaming takes different names to different names, in a program and in the scope that
  it is executed from.  The program then does what it did: no value, no line and no message depends
  on how a variable is called, except for the message that names one without a value.

  * `Expr.rename`, `Stmt.rename`, `Env.rename` -- trees and scopes with their names changed;
  * `RuntimeError.rename`, `Failure.rename` -- what becomes of an error;
  * `Env.get?_rename`, `Env.define_rename` -- scopes commute with it;
  * `Expr.eval_rename`, `Stmt.exec_rename`, `execAll_rename` -- so do trees;
  * `renaming_keeps_behaviour` -- what this means for a session.
-/
import Lox.Proofs.Safety

namespace Lox

/-! ## 1. Renaming -/

section Definitions

variable (r : String → String)

/-- The token with its lexeme changed. -/
def Token.rename (t : Token) : Token :=
  { t with lexeme := r t.lexeme }

/-- The expression with its names changed, those that it reads and those that it assigns to. -/
def Expr.rename : Expr → Expr
  | .literal v => .literal v
  | .unary op e => .unary op e.rename
  | .binary left op right => .binary left.rename op right.rename
  | .grouping e => .grouping e.rename
  | .name t => .name (t.rename r)
  | .assign t e => .assign (t.rename r) e.rename
  | .invalid => .invalid
  | .misplaced => .misplaced

/-- The statement with its names changed. -/
def Stmt.rename : Stmt → Stmt
  | .expression e => .expression (e.rename r)
  | .print e => .print (e.rename r)
  | .var t initial => .var (t.rename r) (initial.map (Expr.rename r))
  | .misplaced => .misplaced

/-- The scope with its names changed. -/
def Env.rename (env : Env) : Env :=
  ⟨env.bindings.map (Prod.map r id)⟩

/-- The error with the name changed that has no value. Every other error is at an operator. -/
def RuntimeError.rename (e : RuntimeError) : RuntimeError :=
  if e.cause = .undefinedVariable then { e with token := e.token.rename r } else e

/-- The failure with the name changed that has no value. -/
def Failure.rename : Failure → Failure
  | .runtime e => .runtime (e.rename r)
  | .fault f => .fault f

/-- The execution with the names changed, those of its scope and that of its failure. -/
def Execution.rename (x : Execution) : Execution :=
  { x with env := x.env.rename r, failure := x.failure.map (Failure.rename r) }

end Definitions

variable {r : String → String}

/-! ## 2. Scopes -/

section Scopes

variable (hr : Function.Injective r)

include hr

theorem Env.lookup_map_rename (n : String) (bs : List (String × Value)) :
    (bs.map (Prod.map r id)).lookup (r n) = bs.lookup n := by
  induction bs with
  | nil => rfl
  | cons b bs ih =>
      rcases b with ⟨m, v⟩
      by_cases h : n = m
      · subst h
        simp
      · have hne : r n ≠ r m := fun heq => h (hr heq)
        simp [List.lookup_cons, beq_false_of_ne h, beq_false_of_ne hne, ih]

theorem Env.bind_rename (n : String) (v : Value) (bs : List (String × Value)) :
    bind (r n) v (bs.map (Prod.map r id)) = (bind n v bs).map (Prod.map r id) := by
  induction bs with
  | nil => rfl
  | cons b bs ih =>
      rcases b with ⟨m, w⟩
      by_cases h : m = n
      · subst h
        simp [bind]
      · have hne : r m ≠ r n := fun heq => h (hr heq)
        simp [bind, h, hne, ih]

/-- **The changed name has the value of the name**, or none. -/
theorem Env.get?_rename (env : Env) (n : String) : (env.rename r).get? (r n) = env.get? n :=
  lookup_map_rename hr n env.bindings

/-- **A changed name bound in the changed scope.** -/
theorem Env.define_rename (env : Env) (n : String) (v : Value) :
    (env.rename r).define (r n) v = (env.define n v).rename r :=
  congrArg Env.mk (bind_rename hr n v env.bindings)

theorem Env.lookup_rename (env : Env) (t : Token) :
    (env.rename r).lookup (t.rename r) = (env.lookup t).mapError (Failure.rename r) := by
  unfold Env.lookup
  rw [show (t.rename r).lexeme = r t.lexeme from rfl, env.get?_rename hr]
  cases env.get? t.lexeme <;> rfl

end Scopes

/-! ## 3. Operators -/

/-- The outcome names no variable without a value. -/
def Nameless (r : String → String) (x : Except Failure Value) : Prop :=
  x.mapError (Failure.rename r) = x

theorem unaryOp_nameless (op : Token) (v : Value) : Nameless r (unaryOp op v) := by
  unfold unaryOp
  split <;> rfl

theorem onNumbers_nameless (op : Token) {f : Float → Float → Except Failure Value}
    (hf : ∀ x y, Nameless r (f x y)) (a b : Value) : Nameless r (onNumbers op f a b) := by
  unfold onNumbers
  split
  · exact hf _ _
  · rfl

theorem add_nameless (op : Token) (a b : Value) : Nameless r (add op a b) := by
  unfold add
  split
  · rfl
  · split <;> rfl

theorem divide_nameless (op : Token) (x y : Float) : Nameless r (divide op x y) := by
  unfold divide
  split <;> rfl

theorem binaryOp_nameless (op : Token) (a b : Value) : Nameless r (binaryOp op a b) := by
  unfold binaryOp
  split
  case h_1 => exact add_nameless op a b
  case h_4 => exact onNumbers_nameless op (divide_nameless op) a b
  case h_9 | h_10 | h_11 => rfl
  all_goals
    refine onNumbers_nameless op ?_ a b
    exact fun _ _ => rfl

/-! ## 4. Trees -/

section Trees

variable (hr : Function.Injective r)

include hr

/-- **The renamed expression in the renamed scope** has the value of the expression, or its failure
    with the name changed, and leaves its scope with the names changed. -/
theorem Expr.eval_rename (e : Expr) (env : Env) :
    (e.rename r).eval (env.rename r) =
      ((e.eval env).1.mapError (Failure.rename r), (e.eval env).2.rename r) := by
  induction e generalizing env with
  | literal | invalid | misplaced => rfl
  | name t => exact congrArg (·, env.rename r) (env.lookup_rename hr t)
  | grouping e ih => exact ih env
  | assign t e ih =>
      rw [rename, eval, eval, ih]
      rcases e.eval env with ⟨f | v, env'⟩
      · rfl
      · exact congrArg (Except.ok v, ·) (env'.define_rename hr t.lexeme v)
  | unary op e ih =>
      rw [rename, eval, eval, ih]
      rcases e.eval env with ⟨f | v, env'⟩
      · rfl
      · exact congrArg (·, env'.rename r) (unaryOp_nameless op v).symm
  | binary left op right ihl ihr =>
      rw [rename, eval, eval, ihl]
      rcases left.eval env with ⟨f | a, env'⟩
      · rfl
      simp only [Except.mapError, ihr]
      rcases right.eval env' with ⟨f | b, env''⟩
      · rfl
      · exact congrArg (·, env''.rename r) (binaryOp_nameless op a b).symm

theorem Execution.ofValue_rename (e : Expr) (env : Env) {next next' : Value → Env → Execution}
    (hn : ∀ v env, next' v (env.rename r) = (next v env).rename r) :
    ofValue (env.rename r) (e.rename r) next' = (ofValue env e next).rename r := by
  unfold ofValue
  rw [e.eval_rename hr]
  rcases e.eval env with ⟨f | v, env'⟩
  · rfl
  · exact hn v env'

theorem Stmt.exec_rename (echo : Bool) (env : Env) (stmt : Stmt) :
    (stmt.rename r).exec echo (env.rename r) = (stmt.exec echo env).rename r := by
  have hdefine : ∀ (t : Token) (v : Value) (env : Env),
      (⟨[], (env.rename r).define (t.rename r).lexeme v, none⟩ : Execution) =
        Execution.rename r ⟨[], env.define t.lexeme v, none⟩ :=
    fun t v env => congrArg (Execution.mk [] · none) (env.define_rename hr t.lexeme v)
  match stmt with
  | .expression e | .print e => exact Execution.ofValue_rename hr e env fun _ _ => rfl
  | .var t none => exact hdefine t .nil env
  | .var t (some e) => exact Execution.ofValue_rename hr e env fun v env => hdefine t v env
  | .misplaced => rfl

/-- **Renamed statements in the renamed scope** print the same, fail where they failed and leave
    their scope with the names changed. -/
theorem execAll_rename (echo : Bool) (env : Env) (ss : List Stmt) :
    execAll echo (env.rename r) (ss.map (Stmt.rename r)) = (execAll echo env ss).rename r := by
  induction ss generalizing env with
  | nil => rfl
  | cons stmt ss ih =>
      rw [List.map_cons, execAll, execAll, Stmt.exec_rename hr]
      rcases stmt.exec echo env with ⟨out, env', _ | f⟩
      · simp only [Execution.rename, Option.map_none, ih env']
      · rfl

end Trees

/-! ## 5. Errors and sessions -/

namespace RuntimeError

variable (e : RuntimeError)

/-- A renaming keeps what went wrong, and on which line. -/
theorem rename_kept : (e.rename r).cause = e.cause ∧ (e.rename r).token.line = e.token.line := by
  unfold rename
  split <;> exact ⟨rfl, rfl⟩

theorem message_of_undefined (h : e.cause = .undefinedVariable) :
    e.message = "Undefined variable '" ++ e.token.lexeme ++ "'." := by
  rw [message, h]

/-- The message about a name without a value names the changed name. -/
theorem message_rename_of_undefined (h : e.cause = .undefinedVariable) :
    (e.rename r).message = "Undefined variable '" ++ r e.token.lexeme ++ "'." := by
  rw [rename, if_pos h]
  exact message_of_undefined _ h

/-- Every other message is kept. -/
theorem message_rename (h : e.cause ≠ .undefinedVariable) : (e.rename r).message = e.message := by
  rw [rename, if_neg h]

end RuntimeError

/-- **Consistent renaming keeps what a program does.** Let different names be taken to different
    names, in meaningful statements and in the scope that they are executed from.  They then print
    the same, with echo and without; the scope left is the one that was left, with its names
    changed; and nothing is reported in either case, or one error in both: of the same sort, on the
    same line and with the same message, which names the changed name if it names one at all. -/
theorem renaming_keeps_behaviour {r : String → String} (hr : Function.Injective r)
    {ss : List Stmt} (hss : ∀ stmt ∈ ss, stmt.Meaningful) (env : Env) (reporter : Reporter)
    (echo : Bool) :
    let t := (⟨env, reporter⟩ : Session).execute echo ss
    let t' := (⟨env.rename r, reporter⟩ : Session).execute echo (ss.map (Stmt.rename r))
    t'.written.output = t.written.output ∧
    t'.session.env = t.session.env.rename r ∧ t'.session.reporter = t.session.reporter ∧
    t.fault = none ∧ t'.fault = none ∧
    (t.written.diagnostics = [] ∧ t'.written.diagnostics = [] ∨
      ∃ e e', t.written.diagnostics = [.runtime e] ∧ t'.written.diagnostics = [.runtime e'] ∧
        e'.cause = e.cause ∧ e'.token.line = e.token.line ∧
        (e.cause ≠ .undefinedVariable → e'.message = e.message) ∧
        (e.cause = .undefinedVariable →
          e.message = "Undefined variable '" ++ e.token.lexeme ++ "'." ∧
          e'.message = "Undefined variable '" ++ r e.token.lexeme ++ "'.")) := by
  have hfault := execute_faultless hss ⟨env, reporter⟩ echo
  simp only [Session.execute, execAll_rename hr] at hfault ⊢
  generalize execAll echo env ss = x at hfault ⊢
  rcases x with ⟨out, env', _ | (e | f)⟩
  · exact ⟨rfl, rfl, rfl, rfl, rfl, .inl ⟨rfl, rfl⟩⟩
  · obtain ⟨hcause, hline⟩ := e.rename_kept (r := r)
    exact ⟨rfl, rfl, rfl, rfl, rfl, .inr ⟨e, e.rename r, rfl, rfl, hcause, hline,
      e.message_rename, fun h => ⟨e.message_of_undefined h, e.message_rename_of_undefined h⟩⟩⟩
  · cases hfault

/-- `var a = b; print a + c;` with an underscore before each name: `c` has no value on line 2. -/
theorem renaming_keeps_unbound :
    let r (n : String) : String := "_" ++ n
    let name (lexeme : String) (line : Int) : Token := { kind := .identifier, lexeme, line }
    let plus : Token := { kind := .plus, lexeme := "+", line := 2 }
    let ss : List Stmt := [.var (name "a" 1) (some (.name (name "b" 1))),
      .print (.binary (.name (name "a" 2)) plus (.name (name "c" 2)))]
    let env : Env := ⟨[("b", .string "x")]⟩
    let t := (⟨env, {}⟩ : Session).execute false ss
    let t' := (⟨env.rename r, {}⟩ : Session).execute false (ss.map (Stmt.rename r))
    Function.Injective r ∧ (∀ stmt ∈ ss, stmt.Meaningful) ∧
      t.written.diagnostics = [.runtime ⟨name "c" 2, .undefinedVariable⟩] ∧
      t'.session.env = ⟨[("_b", .string "x"), ("_a", .string "x")]⟩ ∧
      ∃ e, t'.written.diagnostics = [.runtime e] ∧ e.token.line = 2 ∧
        e.message = "Undefined variable '_c'." := by
  intro r name plus ss env t t'
  have hr : Function.Injective r := fun _ _ h => String.append_right_inj _ |>.mp h
  have hss : ∀ stmt ∈ ss, stmt.Meaningful := by
    refine List.forall_mem_cons.mpr ⟨trivial, List.forall_mem_singleton.mpr ?_⟩
    exact ⟨by decide, trivial, trivial⟩
  have ht : t.written.diagnostics = [.runtime ⟨name "c" 2, .undefinedVariable⟩] := by
    decide +kernel
  have henv : t.session.env.rename r = ⟨[("_b", .string "x"), ("_a", .string "x")]⟩ := by
    decide +kernel
  obtain ⟨-, himage, -, -, -, hboth⟩ := renaming_keeps_behaviour hr hss env {} false
  refine ⟨hr, hss, ht, himage.trans henv, ?_⟩
  rcases hboth with ⟨hnone, -⟩ | ⟨e, e', he, he', -, hline, -, hmessage⟩
  · cases ht.symm.trans hnone
  · cases ht.symm.trans he
    exact ⟨e', he', hline, (hmessage rfl).2⟩

end Lox
