/-
  File:      Lox/Proofs/Bindings.lean
  Subject:   Names are bound in the order of execution, and nothing else changes.

  The TARGETS of a program are the names that it would bind if nothing failed, in the order of
  execution: within a statement those of its assignments, inner ones and left ones first, and then
  the name that it declares.  An execution binds a beginning of them, up to the node that fails.

  * `Expr.targets`, `Stmt.targets`, `targetsOf` -- the targets;
  * `Env.defineAll` -- bindings made one after the other;
  * `Expr.bound`, `Stmt.bound`, `boundAll` -- the bindings that an execution makes;
  * `Expr.eval_env`, `execAll_env` -- it makes these and no others;
  * `Expr.Fails`, `Expr.exists_failsAt`, `boundAll_of_failed` -- an execution that fails has bound
    the targets in front of the node that fails, and those of its operands;
  * `bindings_follow_execution` -- what this means for a session.
-/
import Lox.Proofs.Location
import Lox.Proofs.Observers
import Lox.Proofs.Occurrence

namespace Lox

/-! ## 1. Targets -/

/-- The names that an expression assigns to, in the order of evaluation. -/
def Expr.targets : Expr → List String
  | .literal _ | .name _ | .invalid | .misplaced => []
  | .unary _ e | .grouping e => e.targets
  | .binary l _ r => l.targets ++ r.targets
  | .assign t e => e.targets ++ [t.lexeme]

/-- The names that a statement binds, in the order of execution. -/
def Stmt.targets : Stmt → List String
  | .expression e | .print e => e.targets
  | .var t none => [t.lexeme]
  | .var t (some e) => e.targets ++ [t.lexeme]
  | .misplaced => []

/-- The names that statements bind, in the order of execution. -/
def targetsOf (ss : List Stmt) : List String :=
  ss.flatMap Stmt.targets

/-- The targets in front of the hole: those of what is evaluated before it. -/
def Expr.Context.targets : Expr.Context → List String
  | .hole => []
  | .unary _ c | .grouping c | .assign _ c | .left c _ _ => c.targets
  | .right other _ c => other.targets ++ c.targets

/-- The targets in front of the hole. -/
def Stmt.Context.targets : Stmt.Context → List String
  | .expression c | .print c | .var _ c => c.targets

/-- The targets in front of the hole. -/
def Program.Context.targets (c : Program.Context) : List String :=
  targetsOf c.before ++ c.here.targets

/-- The targets in front of the hole and those in it are the first ones of the whole. -/
theorem Expr.Context.targets_front (e : Expr) :
    ∀ c : Expr.Context, c.targets ++ e.targets <+: (c.fill e).targets
  | .hole => List.prefix_rfl
  | .unary _ c | .grouping c => targets_front e c
  | .left c _ other => (targets_front e c).trans (List.prefix_append _ other.targets)
  | .assign t c => (targets_front e c).trans (List.prefix_append _ [t.lexeme])
  | .right other _ c => by
      rw [targets, List.append_assoc]
      exact (List.prefix_append_right_inj other.targets).mpr (targets_front e c)

theorem Stmt.Context.targets_front (e : Expr) (c : Stmt.Context) :
    c.targets ++ e.targets <+: (c.fill e).targets := by
  cases c with
  | expression c | print c => exact c.targets_front e
  | var t c => exact (c.targets_front e).trans (List.prefix_append _ [t.lexeme])

/-! ## 2. Bindings made one after the other -/

namespace Env

/-- The scope with the bindings made one after the other. -/
def defineAll (env : Env) (bs : List (String × Value)) : Env :=
  bs.foldl (fun env b => env.define b.1 b.2) env

variable (env : Env) (bs : List (String × Value))

@[simp] theorem defineAll_nil : env.defineAll [] = env := rfl

@[simp] theorem defineAll_cons (b : String × Value) :
    env.defineAll (b :: bs) = (env.define b.1 b.2).defineAll bs := rfl

@[simp] theorem defineAll_append (cs : List (String × Value)) :
    env.defineAll (bs ++ cs) = (env.defineAll bs).defineAll cs :=
  List.foldl_append

/-- A name that is not bound on the way keeps its value, or stays without one. -/
theorem get?_defineAll_of_not_mem {n : String} (h : n ∉ bs.map (·.1)) :
    (env.defineAll bs).get? n = env.get? n := by
  induction bs generalizing env with
  | nil => rfl
  | cons b bs ih =>
      rw [List.map_cons, List.mem_cons, not_or] at h
      rw [defineAll_cons, ih _ h.2, get?_define_of_ne env b.2 h.1]

theorem contains_define (name n : String) (v : Value) :
    (env.define name v).contains n ↔ env.contains n ∨ n = name := by
  by_cases h : n = name
  · subst h
    simp [contains]
  · simp [contains, get?_define_of_ne env v h, h]

/-- The names bound afterwards are those bound before, and those bound on the way. -/
theorem contains_defineAll (n : String) :
    (env.defineAll bs).contains n ↔ env.contains n ∨ n ∈ bs.map (·.1) := by
  induction bs generalizing env with
  | nil => simp
  | cons b bs ih => rw [defineAll_cons, ih, contains_define, List.map_cons, List.mem_cons, or_assoc]

end Env

/-! ## 3. The bindings of an execution -/

/-- The binding that an assignment to the name makes, if the value has been found. -/
def bindingOf (t : Token) : Except Failure Value → List (String × Value)
  | .ok v => [(t.lexeme, v)]
  | .error _ => []

/-- The bindings that an evaluation makes, in order. -/
def Expr.bound (env : Env) : Expr → List (String × Value)
  | .literal _ | .name _ | .invalid | .misplaced => []
  | .unary _ e | .grouping e => e.bound env
  | .binary l _ r =>
    l.bound env ++ match l.eval env with
      | (.ok _, env) => r.bound env
      | (.error _, _) => []
  | .assign t e => e.bound env ++ bindingOf t (e.eval env).1

/-- The bindings that a statement makes, in order. -/
def Stmt.bound (env : Env) : Stmt → List (String × Value)
  | .expression e | .print e => e.bound env
  | .var t none => [(t.lexeme, .nil)]
  | .var t (some e) => e.bound env ++ bindingOf t (e.eval env).1
  | .misplaced => []

/-- The bindings that statements make, in order, up to the first that fails. -/
def boundAll (env : Env) : List Stmt → List (String × Value)
  | [] => []
  | stmt :: ss =>
    stmt.bound env ++ match stmt.exec false env with
      | ⟨_, env, none⟩ => boundAll env ss
      | _ => []

/-- **An evaluation makes its bindings and changes nothing else.** -/
theorem Expr.eval_env (e : Expr) (env : Env) : (e.eval env).2 = env.defineAll (e.bound env) := by
  induction e generalizing env with
  | literal | name | invalid | misplaced => rfl
  | grouping e ih => exact ih env
  | unary op e ih =>
      rw [bound, ← ih env, eval]
      rcases e.eval env with ⟨f | v, env'⟩ <;> rfl
  | assign t e ih =>
      rw [bound, Env.defineAll_append, ← ih env, eval]
      rcases e.eval env with ⟨f | v, env'⟩ <;> rfl
  | binary l op r ihl ihr =>
      rw [bound, Env.defineAll_append, ← ihl env, eval]
      rcases l.eval env with ⟨f | a, env'⟩
      · rfl
      · simp only [← ihr env']
        rcases r.eval env' with ⟨f | b, env''⟩ <;> rfl

theorem Execution.env_ofValue {env : Env} {e : Expr} {next : Value → Env → Execution} {t : Token}
    (hn : ∀ v env, (next v env).env = env.define t.lexeme v) :
    (ofValue env e next).env = env.defineAll (e.bound env ++ bindingOf t (e.eval env).1) := by
  rw [Env.defineAll_append, ← e.eval_env env, ofValue]
  rcases e.eval env with ⟨f | v, env'⟩
  · rfl
  · exact hn v env'

/-- A statement makes its bindings and changes nothing else. -/
theorem Stmt.exec_env (echo : Bool) (env : Env) (stmt : Stmt) :
    (stmt.exec echo env).env = env.defineAll (stmt.bound env) := by
  cases stmt with
  | expression e | print e =>
      rw [bound, ← e.eval_env env, exec, Execution.ofValue]
      rcases e.eval env with ⟨f | v, env'⟩ <;> rfl
  | var t initial =>
      cases initial with
      | none => rfl
      | some e => exact Execution.env_ofValue fun _ _ => rfl
  | misplaced => rfl

/-- **Statements make their bindings and change nothing else.** -/
theorem execAll_env (echo : Bool) (env : Env) (ss : List Stmt) :
    (execAll echo env ss).env = env.defineAll (boundAll env ss) := by
  -- an echo binds nothing, and `boundAll` is told without it
  rw [(execAll_echo echo env ss).1]
  induction ss generalizing env with
  | nil => rfl
  | cons stmt ss ih =>
      rw [boundAll, Env.defineAll_append, ← stmt.exec_env false env, execAll]
      rcases stmt.exec false env with ⟨out, env', _ | f⟩
      · exact ih env'
      · rfl

/-! ## 4. How far the bindings get -/

/-- **An expression that has a value has bound all its targets.** -/
theorem Expr.bound_of_ok {e : Expr} {env : Env} {v : Value} (h : (e.eval env).1 = .ok v) :
    (e.bound env).map (·.1) = e.targets := by
  induction e generalizing env v with
  | literal | name => rfl
  | invalid | misplaced => cases h
  | grouping e ih => exact ih h
  | unary op e ih =>
      rcases he : e.eval env with ⟨f | w, env'⟩
      · simp only [eval, he] at h
        cases h
      · exact ih (congrArg Prod.fst he)
  | assign t e ih =>
      rcases he : e.eval env with ⟨f | w, env'⟩
      · simp only [eval, he] at h
        cases h
      · rw [bound, targets, List.map_append, ih (congrArg Prod.fst he), he]
        rfl
  | binary l op r ihl ihr =>
      rcases hl : l.eval env with ⟨f | a, env'⟩
      · simp only [eval, hl] at h
        cases h
      rcases hr : r.eval env' with ⟨f | b, env''⟩
      · simp only [eval, hl, hr] at h
        cases h
      · simp only [bound, targets, hl, List.map_append, ihl (congrArg Prod.fst hl),
          ihr (congrArg Prod.fst hr)]

/-- The expression fails by itself: all its operands have values. -/
inductive Expr.Fails : Env → Expr → Failure → Prop
  | name {env t} (h : env.get? t.lexeme = none) :
      Fails env (.name t) (.blame t .undefinedVariable)
  | unary {env op e v env' f} (he : e.eval env = (.ok v, env')) (hf : unaryOp op v = .error f) :
      Fails env (.unary op e) f
  | binary {env l op r a b env' env'' f} (hl : l.eval env = (.ok a, env'))
      (hr : r.eval env' = (.ok b, env'')) (hf : binaryOp op a b = .error f) :
      Fails env (.binary l op r) f
  | invalid {env} : Fails env .invalid (.fault .noValue)
  | misplaced {env} : Fails env .misplaced (.fault .noValue)

/-- What fails by itself has bound all its targets. -/
theorem Expr.Fails.bound_eq {env : Env} {e : Expr} {f : Failure} (h : e.Fails env f) :
    (e.bound env).map (·.1) = e.targets := by
  cases h with
  | name | invalid | misplaced => rfl
  | unary he =>
      rw [bound, targets]
      exact bound_of_ok (congrArg Prod.fst he)
  | binary hl hr =>
      simp only [bound, targets, hl, List.map_append, bound_of_ok (congrArg Prod.fst hl),
        bound_of_ok (congrArg Prod.fst hr)]

/-- The evaluation of `whole` comes to the node `e`, which then fails by itself; `bs` are the
    bindings made before, and `c` stands around the node. -/
structure Expr.FailsAt (env : Env) (whole : Expr) (f : Failure) (c : Expr.Context) (e : Expr)
    (bs : List (String × Value)) : Prop where
  whole_eq : whole = c.fill e
  names : bs.map (·.1) = c.targets
  fails : e.Fails (env.defineAll bs) f
  bound_eq : whole.bound env = bs ++ e.bound (env.defineAll bs)

namespace Expr.FailsAt

variable {env env' : Env} {f : Failure} {c : Expr.Context} {e node l r : Expr} {op t : Token}
  {bs : List (String × Value)} {a : Value}

theorem here (h : e.Fails env f) : e.FailsAt env f .hole e [] :=
  ⟨rfl, rfl, h, rfl⟩

theorem grouping (h : e.FailsAt env f c node bs) :
    (Expr.grouping e).FailsAt env f (.grouping c) node bs :=
  ⟨congrArg _ h.whole_eq, h.names, h.fails, h.bound_eq⟩

theorem unary (h : e.FailsAt env f c node bs) :
    (Expr.unary op e).FailsAt env f (.unary op c) node bs :=
  ⟨congrArg _ h.whole_eq, h.names, h.fails, h.bound_eq⟩

/-- An assignment whose value fails binds nothing itself. -/
theorem assign (h : e.FailsAt env f c node bs) (he : e.eval env = (.error f, env')) :
    (Expr.assign t e).FailsAt env f (.assign t c) node bs := by
  refine ⟨congrArg _ h.whole_eq, h.names, h.fails, ?_⟩
  rw [bound, he, bindingOf, List.append_nil, h.bound_eq]

theorem left (h : l.FailsAt env f c node bs) (hl : l.eval env = (.error f, env')) :
    (Expr.binary l op r).FailsAt env f (.left c op r) node bs := by
  refine ⟨congrArg (Expr.binary · op r) h.whole_eq, h.names, h.fails, ?_⟩
  simp only [bound, hl, List.append_nil, h.bound_eq]

/-- The right operand starts from the bindings of the left one. -/
theorem right (h : r.FailsAt env' f c node bs) (hl : l.eval env = (.ok a, env')) :
    (Expr.binary l op r).FailsAt env f (.right l op c) node (l.bound env ++ bs) := by
  have henv : env' = env.defineAll (l.bound env) := by rw [← l.eval_env env, hl]
  refine ⟨congrArg (Expr.binary l op) h.whole_eq, ?_, ?_, ?_⟩
  · rw [List.map_append, bound_of_ok (congrArg Prod.fst hl), h.names]
    rfl
  · rw [Env.defineAll_append, ← henv]
    exact h.fails
  · simp only [bound, hl, Env.defineAll_append, ← henv, h.bound_eq, List.append_assoc]

end Expr.FailsAt

/-- **An expression that fails has a node that fails by itself.** -/
theorem Expr.exists_failsAt {whole : Expr} {env : Env} {f : Failure}
    (h : (whole.eval env).1 = .error f) : ∃ c e bs, whole.FailsAt env f c e bs := by
  -- an operand that fails holds the node; if none does, the whole is the node
  induction whole generalizing env f with
  | literal => cases h
  | name t =>
      unfold eval Env.lookup at h
      split at h
      · cases h
      · cases h
        exact ⟨_, _, _, .here (.name ‹_›)⟩
  | invalid =>
      cases h
      exact ⟨_, _, _, .here .invalid⟩
  | misplaced =>
      cases h
      exact ⟨_, _, _, .here .misplaced⟩
  | grouping e ih =>
      obtain ⟨c, node, bs, hs⟩ := ih h
      exact ⟨_, _, _, hs.grouping⟩
  | unary op e ih =>
      rcases he : e.eval env with ⟨g | v, env'⟩
      · simp only [eval, he] at h
        cases h
        obtain ⟨c, node, bs, hs⟩ := ih (congrArg Prod.fst he)
        exact ⟨_, _, _, hs.unary⟩
      · simp only [eval, he] at h
        exact ⟨_, _, _, .here (.unary he h)⟩
  | assign t e ih =>
      rcases he : e.eval env with ⟨g | v, env'⟩
      · simp only [eval, he] at h
        cases h
        obtain ⟨c, node, bs, hs⟩ := ih (congrArg Prod.fst he)
        exact ⟨_, _, _, hs.assign he⟩
      · simp only [eval, he] at h
        cases h
  | binary l op r ihl ihr =>
      rcases hl : l.eval env with ⟨g | a, env'⟩
      · simp only [eval, hl] at h
        cases h
        obtain ⟨c, node, bs, hs⟩ := ihl (congrArg Prod.fst hl)
        exact ⟨_, _, _, hs.left hl⟩
      rcases hr : r.eval env' with ⟨g | b, env''⟩
      · simp only [eval, hl, hr] at h
        cases h
        obtain ⟨c, node, bs, hs⟩ := ihr (congrArg Prod.fst hr)
        exact ⟨_, _, _, hs.right hl⟩
      · simp only [eval, hl, hr] at h
        exact ⟨_, _, _, .here (.binary hl hr h)⟩

/-- **The names that an expression binds are the first ones of its targets.** -/
theorem Expr.bound_front (env : Env) (e : Expr) : (e.bound env).map (·.1) <+: e.targets := by
  cases h : (e.eval env).1 with
  | ok v => rw [bound_of_ok h]
  | error f =>
      obtain ⟨c, node, bs, hs⟩ := exists_failsAt h
      rw [hs.bound_eq, List.map_append, hs.names, hs.fails.bound_eq, hs.whole_eq]
      exact c.targets_front node

/-- A statement that does not fail has bound all its targets. -/
theorem Stmt.bound_of_done {echo : Bool} {env : Env} {stmt : Stmt}
    (h : (stmt.exec echo env).failure = none) : (stmt.bound env).map (·.1) = stmt.targets := by
  match stmt with
  | .var t none => rfl
  | .misplaced => cases h
  | .expression e | .print e =>
      rw [exec, Execution.ofValue] at h
      rcases he : e.eval env with ⟨f | v, env'⟩
      · rw [he] at h
        cases h
      · exact Expr.bound_of_ok (e := e) (congrArg Prod.fst he)
  | .var t (some e) =>
      rw [exec, Execution.ofValue] at h
      rcases he : e.eval env with ⟨f | v, env'⟩
      · rw [he] at h
        cases h
      · rw [bound, targets, List.map_append, Expr.bound_of_ok (congrArg Prod.fst he), he]
        rfl

/-- A statement that fails is misplaced, or has a node that fails by itself. -/
theorem Stmt.exists_fails {echo : Bool} {env : Env} {stmt : Stmt} {f : Failure}
    (h : (stmt.exec echo env).failure = some f) :
    (stmt = .misplaced ∧ f = .fault .notStatement) ∨
      ∃ (c : Stmt.Context) (e : Expr) (bs : List (String × Value)), stmt = c.fill e ∧
        bs.map (·.1) = c.targets ∧ e.Fails (env.defineAll bs) f ∧
        stmt.bound env = bs ++ e.bound (env.defineAll bs) := by
  match stmt with
  | .var t none => cases h
  | .misplaced =>
      cases h
      exact .inl ⟨rfl, rfl⟩
  | .expression e =>
      obtain ⟨c, e', bs, hs⟩ := Expr.exists_failsAt (Execution.eval_of_failed (fun _ _ => rfl) h)
      exact .inr ⟨.expression c, e', bs, congrArg _ hs.whole_eq, hs.names, hs.fails, hs.bound_eq⟩
  | .print e =>
      obtain ⟨c, e', bs, hs⟩ := Expr.exists_failsAt (Execution.eval_of_failed (fun _ _ => rfl) h)
      exact .inr ⟨.print c, e', bs, congrArg _ hs.whole_eq, hs.names, hs.fails, hs.bound_eq⟩
  | .var t (some e) =>
      have he := Execution.eval_of_failed (fun _ _ => rfl) h
      obtain ⟨c, e', bs, hs⟩ := Expr.exists_failsAt he
      refine .inr ⟨.var t c, e', bs, congrArg (Stmt.var t ∘ some) hs.whole_eq, hs.names, hs.fails,
        ?_⟩
      rw [bound, he, bindingOf, List.append_nil, hs.bound_eq]

/-- Behind statements that do not fail, the bindings go on from theirs. -/
theorem boundAll_append {before : List Stmt} {env : Env}
    (h : (execAll false env before).failure = none) (rest : List Stmt) :
    boundAll env (before ++ rest) =
      boundAll env before ++ boundAll (execAll false env before).env rest := by
  induction before generalizing env with
  | nil => rfl
  | cons stmt before ih =>
      rw [execAll] at h ⊢
      rw [List.cons_append, boundAll, boundAll, List.append_assoc]
      generalize stmt.exec false env = x at h ⊢
      rcases x with ⟨out, env', _ | f⟩
      · exact congrArg _ (ih h)
      · cases h

/-- **Statements that do not fail have bound all their targets.** -/
theorem boundAll_of_done {ss : List Stmt} {env : Env} (h : (execAll false env ss).failure = none) :
    (boundAll env ss).map (·.1) = targetsOf ss := by
  induction ss generalizing env with
  | nil => rfl
  | cons stmt ss ih =>
      rcases hx : stmt.exec false env with ⟨out, env', _ | f⟩
      · simp only [execAll, hx] at h
        have hstmt := Stmt.bound_of_done (congrArg Execution.failure hx)
        simp only [boundAll, hx, List.map_append, hstmt, ih h, targetsOf, List.flatMap_cons]
      · simp only [execAll, hx] at h
        cases h

/-- **Statements that fail** have bound the targets in front of the one that is no statement, or in
    front of the node that fails by itself, and those of this node. -/
theorem boundAll_of_failed {ss : List Stmt} {env : Env} {f : Failure}
    (h : (execAll false env ss).failure = some f) :
    (∃ before after, ss = before ++ .misplaced :: after ∧ f = .fault .notStatement ∧
      (boundAll env ss).map (·.1) = targetsOf before) ∨
    ∃ (c : Program.Context) (e : Expr) (bs : List (String × Value)), ss = c.fill e ∧
      bs.map (·.1) = c.targets ∧ e.Fails (env.defineAll bs) f ∧
      (boundAll env ss).map (·.1) = c.targets ++ e.targets := by
  obtain ⟨before, failing, after, rfl, hbefore, hfailing, -⟩ := execAll_failed h
  have henv := execAll_env false env before
  -- nothing is bound behind the statement that fails
  have hbound : boundAll env (before ++ failing :: after) =
      boundAll env before ++ failing.bound (execAll false env before).env := by
    rw [boundAll_append hbefore, boundAll]
    generalize failing.exec false (execAll false env before).env = x at hfailing ⊢
    rcases x with ⟨out, env', _ | g⟩
    · cases hfailing
    · exact congrArg _ (List.append_nil _)
  have hnames := boundAll_of_done hbefore
  rcases Stmt.exists_fails hfailing with ⟨rfl, hf⟩ | ⟨c, e, bs, rfl, hbs, hfails, heq⟩
  · refine .inl ⟨before, after, rfl, hf, ?_⟩
    rw [hbound, List.map_append, hnames]
    exact List.append_nil _
  · refine .inr ⟨⟨before, c, after⟩, e, boundAll env before ++ bs, rfl, ?_, ?_, ?_⟩
    · rw [List.map_append, hnames, hbs]
      rfl
    · rw [Env.defineAll_append, ← henv]
      exact hfails
    · rw [hbound, heq, List.map_append, List.map_append, hnames, hbs, hfails.bound_eq,
        ← List.append_assoc]
      rfl

/-- **The names that statements bind are the first ones of their targets.** -/
theorem boundAll_front (env : Env) (ss : List Stmt) :
    (boundAll env ss).map (·.1) <+: targetsOf ss := by
  cases h : (execAll false env ss).failure with
  | none => rw [boundAll_of_done h]
  | some f =>
      rcases boundAll_of_failed h with
        ⟨before, after, rfl, -, hnames⟩ | ⟨c, e, bs, rfl, -, -, hnames⟩
      · rw [hnames, targetsOf, targetsOf, List.flatMap_append]
        exact List.prefix_append _ _
      · rw [hnames, Program.Context.fill, Program.Context.targets, targetsOf, targetsOf,
          List.flatMap_append, List.flatMap_cons, List.append_assoc]
        refine (List.prefix_append_right_inj _).mpr ?_
        exact (c.here.targets_front e).trans (List.prefix_append _ _)

/-! ## 5. Bindings of a session -/

theorem Session.env_execute (s : Session) (echo : Bool) (ss : List Stmt) :
    (s.execute echo ss).session.env = (execAll echo s.env ss).env := by
  unfold execute
  rcases execAll echo s.env ss with ⟨out, env, _ | (e | f)⟩ <;> rfl

/-- Nothing is reported and no fault is met just when nothing fails. -/
theorem Session.execute_done {s : Session} {echo : Bool} {ss : List Stmt}
    (hd : (s.execute echo ss).written.diagnostics = []) (hf : (s.execute echo ss).fault = none) :
    (execAll echo s.env ss).failure = none := by
  unfold execute at hd hf
  generalize execAll echo s.env ss = x at hd hf ⊢
  rcases x with ⟨out, env, _ | (e | f)⟩
  · rfl
  · cases hd
  · cases hf

/-- **Bindings happen in the order of execution, and nothing else changes.** However an execution
    ends, the names that it has bound are the first `k` targets, and these have been bound one after
    the other: the names with a value are those that had one and these, and every other name is as
    it was.  Without an error these are all targets.  An error of a statement or a node leaves those
    in front of it, and those of the operands of this node.  So a value that fails, be it assigned
    or declared, leaves its name as it was, unless it has bound this name itself. -/
theorem bindings_follow_execution (s : Session) (echo : Bool) (ss : List Stmt) :
    let t := s.execute echo ss
    let env := t.session.env
    let bs := boundAll s.env ss
    let k := bs.length
    let names := (targetsOf ss).take k
    bs.map (·.1) = names ∧ env = s.env.defineAll bs ∧
    (∀ n, env.contains n ↔ s.env.contains n ∨ n ∈ names) ∧
    (∀ n, n ∉ names → env.get? n = s.env.get? n) ∧
    (∀ n, s.env.contains n → env.contains n) ∧
    (t.written.diagnostics = [] → t.fault = none → k = (targetsOf ss).length) ∧
    (∀ f, (execAll echo s.env ss).failure = some f →
      (∃ before after, ss = before ++ .misplaced :: after ∧ f = .fault .notStatement ∧
        names = targetsOf before) ∨
      ∃ (c : Program.Context) (e : Expr) (before : List (String × Value)), ss = c.fill e ∧
        before.map (·.1) = c.targets ∧ e.Fails (s.env.defineAll before) f ∧
        names = c.targets ++ e.targets) ∧
    ∀ (env : Env) (name : Token) (e : Expr) (f : Failure), (e.eval env).1 = .error f →
      (e.bound env).map (·.1) <+: e.targets ∧
      (name.lexeme ∉ (e.bound env).map (·.1) →
        ((Expr.assign name e).eval env).2.get? name.lexeme = env.get? name.lexeme ∧
        ((Stmt.var name (some e)).exec echo env).env.get? name.lexeme = env.get? name.lexeme) := by
  intro t env bs k names
  have henv : env = s.env.defineAll bs := (s.env_execute echo ss).trans (execAll_env echo s.env ss)
  have hnames : bs.map (·.1) = names := by
    have hprefix := List.prefix_iff_eq_take.mp (boundAll_front s.env ss)
    rwa [List.length_map] at hprefix
  have hcontains : ∀ n, env.contains n ↔ s.env.contains n ∨ n ∈ names := by
    intro n
    rw [henv, ← hnames]
    exact s.env.contains_defineAll bs n
  refine ⟨hnames, henv, hcontains, fun n hn => ?_, fun n hn => (hcontains n).mpr (.inl hn),
    fun hd hf => ?_, fun f hf => ?_, fun env name e f hf => ⟨e.bound_front env, fun hn => ?_⟩⟩
  · rw [henv]
    exact s.env.get?_defineAll_of_not_mem bs (hnames ▸ hn)
  · have hdone := Session.execute_done hd hf
    rw [(execAll_echo echo s.env ss).2] at hdone
    have hall := congrArg List.length (boundAll_of_done hdone)
    rwa [List.length_map] at hall
  · rw [(execAll_echo echo s.env ss).2] at hf
    rw [← hnames]
    exact boundAll_of_failed hf
  · have hbound : e.bound env ++ bindingOf name (e.eval env).1 = e.bound env := by
      rw [hf, bindingOf, List.append_nil]
    rw [Expr.eval_env, Stmt.exec_env, Expr.bound, Stmt.bound, hbound]
    exact ⟨env.get?_defineAll_of_not_mem _ hn, env.get?_defineAll_of_not_mem _ hn⟩

end Lox
