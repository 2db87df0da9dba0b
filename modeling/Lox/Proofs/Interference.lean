/-
  File:      Lox/Proofs/Interference.lean
  Subject:   A program depends on the variables that it reads, and on no others.

  Two scopes AGREE on some names if each of these has the same value in both, or none in both.  From
  scopes that agree on the names that a program reads it does the same: it makes the same bindings,
  prints the same and ends the same way.

  * `Expr.reads`, `Stmt.reads`, `readsOf` -- the names that are read;
  * `Env.AgreeOn`, `Env.AgreeOn.defineAll` -- scopes that agree, also behind the same bindings;
  * `Expr.eval_agree`, `Stmt.exec_agree`, `execAll_agree` -- what trees do in such scopes;
  * `programs_see_what_they_read` -- what this means for sessions.
-/
import Lox.Proofs.Bindings

namespace Lox

/-! ## 1. What is read -/

/-- The names that an expression reads. -/
def Expr.reads : Expr → List String
  | .literal _ | .invalid | .misplaced => []
  | .name t => [t.lexeme]
  | .unary _ e | .grouping e | .assign _ e => e.reads
  | .binary l _ r => l.reads ++ r.reads

/-- The names that a statement reads. -/
def Stmt.reads : Stmt → List String
  | .expression e | .print e | .var _ (some e) => e.reads
  | .var _ none | .misplaced => []

/-- The names that statements read. -/
def readsOf (ss : List Stmt) : List String :=
  ss.flatMap Stmt.reads

/-! ## 2. Scopes that agree -/

/-- In the two scopes each of the names has the same value, or none. -/
def Env.AgreeOn (names : Set String) (env env' : Env) : Prop :=
  ∀ n ∈ names, env.get? n = env'.get? n

namespace Env.AgreeOn

variable {names : Set String} {env env' : Env}

theorem mono {fewer : Set String} (h : AgreeOn names env env') (hsub : fewer ⊆ names) :
    AgreeOn fewer env env' :=
  fun n hn => h n (hsub hn)

/-- The same binding made in both scopes. -/
theorem define (h : AgreeOn names env env') (name : String) (v : Value) :
    AgreeOn (insert name names) (env.define name v) (env'.define name v) := by
  intro n hn
  by_cases heq : n = name
  · rw [heq, get?_define_self, get?_define_self]
  · rw [get?_define_of_ne env v heq, get?_define_of_ne env' v heq]
    exact h n (hn.resolve_left heq)

/-- **The same bindings made in both scopes**: they agree on the names bound as well. -/
theorem defineAll (h : AgreeOn names env env') (bs : List (String × Value)) :
    AgreeOn (names ∪ {n | n ∈ bs.map (·.1)}) (env.defineAll bs) (env'.defineAll bs) := by
  induction bs generalizing names env env' with
  | nil => exact h.mono fun n hn => hn.resolve_right List.not_mem_nil
  | cons b bs ih =>
      refine (ih (h.define b.1 b.2)).mono ?_
      rintro n (hn | hn)
      · exact .inl (.inr hn)
      · rcases List.mem_cons.mp hn with rfl | hn
        · exact .inl (.inl rfl)
        · exact .inr hn

/-- Scopes that agree, behind what has made its bindings in one of them, and would in the other. -/
theorem onward (h : AgreeOn names env env') {env₁ : Env} {bs : List (String × Value)}
    (henv : env₁ = env.defineAll bs) : AgreeOn names env₁ (env'.defineAll bs) := by
  rw [henv]
  exact (h.defineAll bs).mono fun _ => .inl

theorem lookup_eq (h : AgreeOn names env env') {t : Token} (ht : t.lexeme ∈ names) :
    env'.lookup t = env.lookup t := by
  rw [Env.lookup, Env.lookup, h _ ht]

end Env.AgreeOn

/-! ## 3. Trees in scopes that agree -/

variable {names : Set String} {env env' : Env}

/-- **An expression in scopes that agree on what it reads** has the same value or fails the same
    way, and it makes the same bindings. -/
theorem Expr.eval_agree {e : Expr} (h : env.AgreeOn names env') (he : ∀ n ∈ e.reads, n ∈ names) :
    e.eval env' = ((e.eval env).1, env'.defineAll (e.bound env)) ∧ e.bound env' = e.bound env := by
  induction e generalizing env env' with
  | literal | invalid | misplaced => exact ⟨rfl, rfl⟩
  | name t =>
      refine ⟨?_, rfl⟩
      rw [eval, h.lookup_eq (he _ List.mem_cons_self)]
      rfl
  | grouping e ih => exact ih h he
  | unary op e ih =>
      obtain ⟨hvalue, hbound⟩ := ih h he
      refine ⟨?_, hbound⟩
      rw [eval, eval, hvalue]
      rcases e.eval env with ⟨f | v, env₁⟩ <;> rfl
  | assign t e ih =>
      obtain ⟨hvalue, hbound⟩ := ih h he
      rw [bound, bound, hvalue, hbound, Env.defineAll_append, eval, eval, hvalue]
      rcases e.eval env with ⟨f | v, env₁⟩ <;> exact ⟨rfl, rfl⟩
  | binary l op r ihl ihr =>
      obtain ⟨hl, hr⟩ := List.forall_mem_append.mp he
      obtain ⟨hvalue, hbound⟩ := ihl h hl
      have henv := l.eval_env env
      rw [bound, bound, hbound, Env.defineAll_append, eval, eval, hvalue]
      generalize l.eval env = x at henv ⊢
      rcases x with ⟨f | a, env₁⟩
      · exact ⟨rfl, rfl⟩
      -- the right operand starts from the bindings of the left one, in both scopes
      obtain ⟨hvalue', hbound'⟩ := ihr (h.onward henv) hr
      refine ⟨?_, congrArg _ hbound'⟩
      simp only [hvalue']
      rcases r.eval env₁ with ⟨f | b, env₂⟩ <;> rfl

/-- A statement in scopes that agree on what it reads prints the same and ends the same way, and it
    makes the same bindings. -/
theorem Stmt.exec_agree {stmt : Stmt} (h : env.AgreeOn names env')
    (hs : ∀ n ∈ stmt.reads, n ∈ names) (echo : Bool) :
    stmt.exec echo env' =
        { stmt.exec echo env with env := env'.defineAll (stmt.bound env) } ∧
      stmt.bound env' = stmt.bound env := by
  match stmt with
  | .var t none | .misplaced => exact ⟨rfl, rfl⟩
  | .expression e | .print e =>
      obtain ⟨hvalue, hbound⟩ := Expr.eval_agree (e := e) h hs
      refine ⟨?_, hbound⟩
      rw [exec, exec, Execution.ofValue, Execution.ofValue, hvalue]
      rcases e.eval env with ⟨f | v, env₁⟩ <;> rfl
  | .var t (some e) =>
      obtain ⟨hvalue, hbound⟩ := Expr.eval_agree (e := e) h hs
      rw [bound, bound, hvalue, hbound, Env.defineAll_append]
      refine ⟨?_, rfl⟩
      rw [exec, exec, Execution.ofValue, Execution.ofValue, hvalue]
      rcases e.eval env with ⟨f | v, env₁⟩ <;> rfl

section Statements

variable {ss : List Stmt} (h : env.AgreeOn names env') (hs : ∀ n ∈ readsOf ss, n ∈ names)

include h hs

/-- **Statements in scopes that agree on what they read** print the same and end the same way. -/
theorem execAll_agree (echo : Bool) :
    (execAll echo env' ss).output = (execAll echo env ss).output ∧
      (execAll echo env' ss).failure = (execAll echo env ss).failure := by
  induction ss generalizing env env' with
  | nil => exact ⟨rfl, rfl⟩
  | cons stmt ss ih =>
      obtain ⟨hstmt, hss⟩ := List.forall_mem_append.mp hs
      have henv := stmt.exec_env echo env
      rw [execAll, execAll, (Stmt.exec_agree h hstmt echo).1]
      generalize stmt.exec echo env = x at henv ⊢
      rcases x with ⟨out, env₁, _ | f⟩
      · obtain ⟨hout, hfailure⟩ := ih (h.onward henv) hss
        exact ⟨congrArg (out ++ ·) hout, hfailure⟩
      · exact ⟨rfl, rfl⟩

/-- **They make the same bindings.** -/
theorem boundAll_agree : boundAll env' ss = boundAll env ss := by
  induction ss generalizing env env' with
  | nil => rfl
  | cons stmt ss ih =>
      obtain ⟨hstmt, hss⟩ := List.forall_mem_append.mp hs
      have henv := stmt.exec_env false env
      obtain ⟨hexec, hbound⟩ := Stmt.exec_agree h hstmt false
      rw [boundAll, boundAll, hexec, hbound]
      generalize stmt.exec false env = x at henv ⊢
      rcases x with ⟨out, env₁, _ | f⟩
      · exact congrArg _ (ih (h.onward henv) hss)
      · rfl

end Statements

/-! ## 4. Sessions -/

/-- What a session writes, reports and meets depends on what its statements print and on how they
    end. -/
theorem Session.execute_congr {env env' : Env} {ss : List Stmt} {echo : Bool} (r : Reporter)
    (hout : (execAll echo env' ss).output = (execAll echo env ss).output)
    (hfailure : (execAll echo env' ss).failure = (execAll echo env ss).failure) :
    let t := (⟨env, r⟩ : Session).execute echo ss
    let t' := (⟨env', r⟩ : Session).execute echo ss
    t'.written = t.written ∧ t'.fault = t.fault ∧ t'.session.reporter = t.session.reporter := by
  simp only [execute]
  generalize execAll echo env ss = x at hout hfailure ⊢
  generalize execAll echo env' ss = x' at hout hfailure ⊢
  rcases x with ⟨out, env₁, failed⟩
  rcases x' with ⟨out', env₁', failed'⟩
  cases hout
  cases hfailure
  rcases failed with _ | (e | f) <;> exact ⟨rfl, rfl, rfl⟩

/-- **Programs depend only on the variables that they read.** Let two scopes agree on a set of names
    with all those that the statements read.  Executed from either, under the same reporter, the
    statements print the same and report the same, or meet the same fault, and the reporter
    remembers the same.  They bind the same names to the same values, in the same order; so
    afterwards the scopes agree on the set still, and on every name that has been bound. -/
theorem programs_see_what_they_read {names : Set String} {ss : List Stmt} {env env' : Env}
    (hs : ∀ n ∈ readsOf ss, n ∈ names) (h : env.AgreeOn names env') (r : Reporter) (echo : Bool) :
    let t := (⟨env, r⟩ : Session).execute echo ss
    let t' := (⟨env', r⟩ : Session).execute echo ss
    t'.written = t.written ∧ t'.fault = t.fault ∧ t'.session.reporter = t.session.reporter ∧
    t.session.env = env.defineAll (boundAll env ss) ∧
    t'.session.env = env'.defineAll (boundAll env' ss) ∧ boundAll env' ss = boundAll env ss ∧
    t.session.env.AgreeOn (names ∪ {n | n ∈ (boundAll env ss).map (·.1)}) t'.session.env := by
  intro t t'
  have henv : t.session.env = env.defineAll (boundAll env ss) :=
    (Session.env_execute _ echo ss).trans (execAll_env echo env ss)
  have henv' : t'.session.env = env'.defineAll (boundAll env' ss) :=
    (Session.env_execute _ echo ss).trans (execAll_env echo env' ss)
  have hbound := boundAll_agree h hs
  obtain ⟨hout, hfailure⟩ := execAll_agree h hs echo
  obtain ⟨hwritten, hfault, hreporter⟩ := Session.execute_congr r hout hfailure
  refine ⟨hwritten, hfault, hreporter, henv, henv', hbound, ?_⟩
  rw [henv, henv', hbound]
  exact h.defineAll (boundAll env ss)

/-- `x = b; print a;` where `a` is not bound and `b` is a text, and the scopes differ in `x`: both
    runs bind `x` to this text and fail at `a`. -/
theorem programs_see_what_they_read_unbound :
    let name (lexeme : String) : Token := { kind := .identifier, lexeme }
    let ss : List Stmt :=
      [.expression (.assign (name "x") (.name (name "b"))), .print (.name (name "a"))]
    let env : Env := ⟨[("b", .string "new"), ("x", .string "old")]⟩
    let env' : Env := ⟨[("x", .nil), ("b", .string "new"), ("y", .bool true)]⟩
    let t := (⟨env, {}⟩ : Session).execute true ss
    let t' := (⟨env', {}⟩ : Session).execute true ss
    (∀ n ∈ readsOf ss, n ∈ ({"a", "b"} : Set String)) ∧ env.AgreeOn {"a", "b"} env' ∧
      t'.written = t.written ∧
      t'.written.diagnostics = [.runtime ⟨name "a", .undefinedVariable⟩] ∧
      t'.session.env.get? "x" = some (.string "new") := by
  intro name ss env env' t t'
  have hs : ∀ n ∈ readsOf ss, n ∈ ({"a", "b"} : Set String) := by
    intro n hn
    simp only [readsOf, ss, List.flatMap_cons, List.flatMap_nil, Stmt.reads, Expr.reads, name,
      List.cons_append, List.nil_append, List.append_nil, List.mem_cons, List.not_mem_nil,
      or_false] at hn
    rcases hn with rfl | rfl
    · exact .inr rfl
    · exact .inl rfl
  have hagree : env.AgreeOn {"a", "b"} env' := by
    rintro n (rfl | rfl) <;> rfl
  have ht : t.written.diagnostics = [.runtime ⟨name "a", .undefinedVariable⟩] := by decide +kernel
  have hx : t.session.env.get? "x" = some (.string "new") := by decide +kernel
  have hbound : "x" ∈ (boundAll env ss).map (·.1) := by decide +kernel
  obtain ⟨hwritten, -, -, -, -, -, hafter⟩ := programs_see_what_they_read hs hagree {} true
  refine ⟨hs, hagree, hwritten, (congrArg _ hwritten).trans ht, ?_⟩
  rw [← hafter "x" (.inr hbound)]
  exact hx

end Lox
