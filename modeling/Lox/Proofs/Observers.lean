/-
  File:      Lox/Proofs/Observers.lean
  Subject:   Listings and echo only observe.

  A run can list its tokens, list its trees, and print the value of a lone expression.  Whether it
  does so makes a difference to what is printed and to nothing else; and what is printed besides
  stands before and behind what the program prints.

  * `dump`, `echoed` -- the text of a listing, and the lines of an echo;
  * `Stmt.exec_echo`, `execAll_echo` -- statements bind and fail the same with and without echo;
  * `Session.execute_echo` -- so an echo changes the lines printed by a session, and nothing else;
  * `execAll_echoes` -- it adds its lines behind the others;
  * `options_only_observe` -- what this means for runs.
-/
import Lox.Proofs.Gate

namespace Lox

/-! ## 1. What is shown besides -/

/-- The text of a listing: a title between blank lines, the entries line by line, and a line with a
    blank. -/
def dump (title : String) (entries : List String) : String :=
  "\n" ++ title ++ ":\n\n" ++ unlines entries ++ " \n"

theorem unlines_listing (title : String) (entries : List String) :
    unlines (listing title entries) = dump title entries := by
  simp only [listing, dump, unlines_append]
  simp [unlines, String.append_assoc]

/-- The lines that an echo writes: the value of a lone expression, if it has one. -/
def echoed (env : Env) : List Stmt → List String
  | [.expression e] =>
    match (e.eval env).1 with
    | .ok v => [v.text]
    | .error _ => []
  | _ => []

/-! ## 2. Statements with and without echo -/

theorem Execution.ofValue_congr {env : Env} {e : Expr} {next next' : Value → Env → Execution}
    (henv : ∀ v env, (next v env).env = (next' v env).env)
    (hfailure : ∀ v env, (next v env).failure = (next' v env).failure) :
    (ofValue env e next).env = (ofValue env e next').env ∧
      (ofValue env e next).failure = (ofValue env e next').failure := by
  unfold ofValue
  split
  · exact ⟨henv _ _, hfailure _ _⟩
  · exact ⟨rfl, rfl⟩

/-- A statement binds and fails the same with and without echo. -/
theorem Stmt.exec_echo (echo : Bool) (env : Env) (stmt : Stmt) :
    (stmt.exec echo env).env = (stmt.exec false env).env ∧
      (stmt.exec echo env).failure = (stmt.exec false env).failure := by
  cases stmt with
  | expression e => exact Execution.ofValue_congr (fun _ _ => rfl) (fun _ _ => rfl)
  | print | misplaced => exact ⟨rfl, rfl⟩
  | var t initial => cases initial <;> exact ⟨rfl, rfl⟩

/-- **Statements bind and fail the same with and without echo.** -/
theorem execAll_echo (echo : Bool) : ∀ (env : Env) (ss : List Stmt),
    (execAll echo env ss).env = (execAll false env ss).env ∧
      (execAll echo env ss).failure = (execAll false env ss).failure
  | _, [] => ⟨rfl, rfl⟩
  | env, stmt :: ss => by
      obtain ⟨henv, hfailure⟩ := stmt.exec_echo echo env
      rw [execAll, execAll]
      generalize stmt.exec echo env = x at henv hfailure ⊢
      generalize stmt.exec false env = y at henv hfailure ⊢
      rcases x with ⟨out, env', failed⟩
      rcases y with ⟨out', env'', failed'⟩
      cases henv
      cases hfailure
      cases failed with
      | none => exact execAll_echo echo env' ss
      | some f => exact ⟨rfl, rfl⟩

/-- **An echo changes the lines that a session prints, and nothing else.** -/
theorem Session.execute_echo (s : Session) (echo : Bool) (ss : List Stmt) :
    let t := s.execute false ss
    s.execute echo ss =
      { t with written := { t.written with output := (execAll echo s.env ss).output } } := by
  obtain ⟨henv, hfailure⟩ := execAll_echo echo s.env ss
  unfold Session.execute
  generalize execAll echo s.env ss = x at henv hfailure ⊢
  generalize execAll false s.env ss = y at henv hfailure ⊢
  rcases x with ⟨out, env, failed⟩
  rcases y with ⟨out', env', failed'⟩
  cases henv
  cases hfailure
  rcases failed with _ | (e | f) <;> rfl

theorem exec_expression_echo (env : Env) (e : Expr) :
    ((Stmt.expression e).exec true env).output = echoed env [.expression e] := by
  simp only [Stmt.exec, Execution.ofValue, echoed, if_true]
  rcases e.eval env with ⟨_ | v, env'⟩ <;> rfl

theorem output_execAll_lone (echo : Bool) (env : Env) (stmt : Stmt) :
    (execAll echo env [stmt]).output = (stmt.exec echo env).output := by
  rw [execAll]
  rcases stmt.exec echo env with ⟨out, env', _ | f⟩
  · exact List.append_nil out
  · rfl

/-- **The lines of an echo stand behind those of the program.** -/
theorem execAll_echoes (o : Options) (env : Env) (ss : List Stmt) :
    (execAll (o.echoes ss) env ss).output =
      (execAll false env ss).output ++ if o.echo then echoed env ss else [] := by
  -- without a lone expression there is no echo
  have hnone : o.echoes ss = false → echoed env ss = [] → (execAll (o.echoes ss) env ss).output =
      (execAll false env ss).output ++ if o.echo then echoed env ss else [] := by
    intro hechoes hechoed
    rw [hechoes, hechoed, ite_self, List.append_nil]
  match ss with
  | [] => exact hnone rfl rfl
  | stmt :: _ :: _ => exact hnone rfl (by cases stmt <;> rfl)
  | [.print _] | [.var _ _] | [.misplaced] => exact hnone (Bool.and_false _) rfl
  | [.expression e] =>
      have hsilent : ((Stmt.expression e).exec false env).output = [] := by
        simp only [Stmt.exec, Execution.ofValue]
        split <;> rfl
      rw [output_execAll_lone, output_execAll_lone, hsilent, List.nil_append]
      cases ho : o.echo with
      | false =>
          rw [show o.echoes [.expression e] = false by simp [Options.echoes, ho], hsilent]
          rfl
      | true =>
          rw [show o.echoes [.expression e] = true by simp [Options.echoes, ho, Stmt.isExpression]]
          exact exec_expression_echo env e

theorem Session.output_execute (s : Session) (echo : Bool) (ss : List Stmt) :
    (s.execute echo ss).written.output = (execAll echo s.env ss).output := by
  unfold execute
  rcases execAll echo s.env ss with ⟨out, env, _ | (e | f)⟩ <;> rfl

theorem Session.printed_execute (s : Session) (o : Options) (ss : List Stmt) :
    (s.execute (o.echoes ss) ss).written.printed =
      (s.execute false ss).written.printed ++ if o.echo then unlines (echoed s.env ss) else "" := by
  rw [s.execute_echo, execAll_echoes, ← s.output_execute]
  simp only [Transcript.printed, unlines_append, String.append_assoc]
  cases o.echo <;> rfl

/-! ## 3. Runs -/

section Runs

variable (s : Session) (o : Options) (source : String)

theorem Options.unlines_tokenListing :
    unlines (o.tokenListing source) =
      if o.tokens then dump "Tokens" ((scan source).stream.all.map Token.listing) else "" := by
  unfold tokenListing
  split
  · exact unlines_listing _ _
  · rfl

theorem Options.unlines_treeListing (shown : List String) :
    unlines (o.treeListing shown) = if o.trees then dump "AST" shown else "" := by
  unfold treeListing
  split
  · exact unlines_listing _ _
  · rfl

theorem Turn.printed_behind (listings : List String) (t : Turn) :
    (t.behind listings []).written.printed = unlines listings ++ t.written.printed := by
  simp only [behind, Transcript.printed, unlines_append, String.append_assoc]

/-- **What is asked for makes no difference to the session and to what is reported.** -/
theorem Session.run_frame :
    (s.run o source).session = (s.run {} source).session ∧
      (s.run o source).written.diagnostics = (s.run {} source).written.diagnostics := by
  cases h : (s.reporter.read source).program.reporter.hadError with
  | true =>
      rw [run_of_flagged h, run_of_flagged h]
      exact ⟨rfl, rfl⟩
  | false =>
      obtain ⟨hr, hclean⟩ := Reporter.read_of_unflagged h
      have hsilent : Silent source := hclean
      obtain ⟨shown, -, hrun⟩ := run_of_unflagged (o := o) hr hsilent
      rw [hrun, hsilent.run_eq hr, execute_echo]
      exact ⟨rfl, rfl⟩

/-- With an error nothing is printed but the listing of the tokens. -/
theorem Session.printed_of_flagged
    (h : (s.reporter.read source).program.reporter.hadError = true) :
    (s.run o source).written.printed = unlines (o.tokenListing source) := by
  rw [run_of_flagged h]
  exact String.append_empty

/-- Without an error the listings are printed, what the program prints, and the echo. -/
theorem Session.printed_of_unflagged (hr : s.reporter.hadError = false) (h : Silent source) :
    ∃ shown, (statementsOf source).mapM Stmt.render = .ok shown ∧
      (s.run o source).written.printed =
        unlines (o.tokenListing source) ++ unlines (o.treeListing shown) ++
          (s.run {} source).written.printed ++
          if o.echo then unlines (echoed s.env (statementsOf source)) else "" := by
  obtain ⟨shown, hshown, hrun⟩ := run_of_unflagged (o := o) hr h
  refine ⟨shown, hshown, ?_⟩
  rw [hrun, Turn.printed_behind, unlines_append, printed_execute, h.run_eq hr]
  simp only [String.append_assoc]

end Runs

/-- **Listings and echo only observe.** Under any two options a run ends with the same variables,
    the same reporter and the same text of diagnostics, and no tree of it fails to be shown.  What
    is printed is the listing of the tokens, if asked for; the listing of the trees, if asked for
    and the reporter remembers no error; what the run prints when nothing is asked for; and, if an
    echo is asked for, the reporter remembers no error and the program is a lone expression that has
    a value, a line with this value. -/
theorem options_only_observe (s : Session) (source : String) (o o' : Options) :
    let reading := s.reporter.read source
    let flagged := reading.program.reporter.hadError
    (s.run o source).session = (s.run o' source).session ∧
    Diagnostic.texts (s.run o source).written.diagnostics =
      Diagnostic.texts (s.run o' source).written.diagnostics ∧
    (s.run o source).fault = none ∧
    ∃ shown, reading.program.statements.mapM Stmt.render = .ok shown ∧
      (s.run o source).written.printed =
        (if o.tokens then dump "Tokens" ((scan source).stream.all.map Token.listing) else "") ++
        (if o.trees ∧ flagged = false then dump "AST" shown else "") ++
        (s.run {} source).written.printed ++
        (if o.echo ∧ flagged = false then unlines (echoed s.env reading.program.statements)
          else "") := by
  intro reading flagged
  obtain ⟨hsession, hdiagnostics⟩ := s.run_frame o source
  obtain ⟨hsession', hdiagnostics'⟩ := s.run_frame o' source
  refine ⟨hsession.trans hsession'.symm, ?_, s.run_fault o source, ?_⟩
  · rw [hdiagnostics, hdiagnostics']
  cases h : flagged with
  | true =>
      have hnone : reading.program.statements = [] := if_pos h
      refine ⟨[], by rw [hnone]; rfl, ?_⟩
      rw [s.printed_of_flagged o source h, s.printed_of_flagged {} source h,
        o.unlines_tokenListing]
      simp [Options.tokenListing, unlines]
  | false =>
      obtain ⟨hr, hclean⟩ := Reporter.read_of_unflagged h
      have hsilent : Silent source := hclean
      have hstatements : reading.program.statements = statementsOf source :=
        (hsilent.read_eq hr).2.1
      obtain ⟨shown, hshown, hprinted⟩ := s.printed_of_unflagged o source hr hsilent
      rw [o.unlines_tokenListing, o.unlines_treeListing] at hprinted
      rw [hstatements]
      exact ⟨shown, hshown, by simpa using hprinted⟩

end Lox
