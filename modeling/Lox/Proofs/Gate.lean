/-
  File:      Lox/Proofs/Gate.lean
  Subject:   A source with an error does nothing, and one without is executed whole.

  Between reading a source and executing it stands the flag of the reporter.  While it is set, by
  this source or by an earlier one, nothing of a source is executed; and it is cleared by a reset
  only.

  * `Session.run_of_flagged`, `Session.run_of_unflagged` -- a run with the flag set and unset;
  * `Session.act_reporter` -- all that is done to a session, a reset apart, tells the reporter just
    what it writes;
  * `Session.after`, `Session.after_hadError` -- so the flag stays set until a reset;
  * `errors_keep_the_session` -- what this means for the variables and for what is written.
-/
import Lox.Proofs.Recovery
import Lox.Proofs.Script

namespace Lox

variable {s : Session} {o : Options} {source : String}

/-! ## 1. What options ask for -/

/-- The listing of the tokens of a source, if it is asked for. -/
def Options.tokenListing (o : Options) (source : String) : List String :=
  if o.tokens then listing "Tokens" ((scan source).stream.all.map Token.listing) else []

/-- The listing of trees that are shown so, if it is asked for. -/
def Options.treeListing (o : Options) (shown : List String) : List String :=
  if o.trees then listing "AST" shown else []

/-- True when the value of a program is printed: it is asked for, and the program is a lone
    expression. -/
def Options.echoes (o : Options) : List Stmt → Bool
  | [s] => o.echo && s.isExpression
  | _ => false

theorem Session.present_eq {ss : List Stmt} {shown : List String}
    (h : ss.mapM Stmt.render = .ok shown) :
    s.present o ss = (s.execute (o.echoes ss) ss).behind (o.treeListing shown) [] := by
  -- of the statements, the echo asks only whether there are none, one or several
  rcases ss with _ | ⟨a, _ | ⟨b, others⟩⟩ <;>
    simp only [present, Options.echoes, Options.treeListing, h, Bool.and_false] <;>
    cases o.trees <;> simp [Turn.behind]

/-! ## 2. Runs with and without the flag -/

/-- A reading sets the flag, or finds it set, if the flag was set or the source is not silent. -/
theorem Reporter.read_flagged (r : Reporter) (source : String) :
    (r.read source).program.reporter.hadError = true ↔ r.hadError = true ∨ ¬ Silent source := by
  have hdiagnostics : (r.read source).diagnostics = (({} : Reporter).read source).diagnostics := rfl
  constructor
  · intro h
    by_cases hs : Silent source
    · rw [r.read_reporter, hdiagnostics, hs] at h
      exact .inl h
    · exact .inr hs
  · intro h
    refine Bool.not_eq_false _ |>.mp fun hflag => ?_
    obtain ⟨hr, hsilent⟩ := read_of_unflagged hflag
    rcases h with h | h
    · rw [hr] at h
      cases h
    · exact h hsilent

/-- **A run with the flag set**: the source is read and its tokens are listed, and that is all. -/
theorem Session.run_of_flagged
    (h : (s.reporter.read source).program.reporter.hadError = true) :
    s.run o source =
      { session := { s with reporter := (s.reporter.read source).program.reporter }
        written :=
          { listings := o.tokenListing source
            diagnostics := (s.reporter.read source).diagnostics } } := by
  simp only [run, h, if_true, Turn.behind, List.append_nil]
  rfl

theorem exists_of_mem_declarations {stop : Token} {d : Declaration} : ∀ {ts : List Token},
    d ∈ declarations stop ts → ∃ us, d = declaration stop us
  | [], h => by
      rw [declarations] at h
      cases h
  | t :: ts, h => by
      rw [declarations] at h
      rcases List.mem_cons.mp h with rfl | h
      · exact ⟨t :: ts, rfl⟩
      · have hlt : (ts.drop ((declaration stop (t :: ts)).used - 1)).length < (t :: ts).length := by
          rw [List.length_drop, List.length_cons]
          omega
        exact exists_of_mem_declarations h
termination_by ts => ts.length
decreasing_by exact hlt

/-- A silent source has a tree for each of its declarations, and these are its statements. -/
theorem Silent.trees (h : Silent source) :
    (declarations (scan source).stream.stop (scan source).stream.tokens).map (·.tree) =
      (statementsOf source).map some := by
  obtain ⟨hclean, hstatements⟩ := h.derives.declarations_eq (scan source).stream.stop
  rw [← hstatements]
  refine (filterMap_tree_of_clean fun d hd => ?_).symm
  obtain ⟨us, rfl⟩ := exists_of_mem_declarations hd
  exact declaration_tree_of_clean (hclean _ hd)

/-- **A run that leaves the flag unset** reports nothing before it executes the statements of the
    source, all of them. -/
theorem Session.run_of_unflagged (hr : s.reporter.hadError = false) (h : Silent source) :
    ∃ shown, (statementsOf source).mapM Stmt.render = .ok shown ∧
      s.run o source = (s.execute (o.echoes (statementsOf source)) (statementsOf source)).behind
        (o.tokenListing source ++ o.treeListing shown) [] := by
  obtain ⟨hdiagnostics, hstatements, hreporter⟩ := h.read_eq hr
  obtain ⟨shown, hshown⟩ := renderAll_ok h.derives.meaningful
  refine ⟨shown, hshown, ?_⟩
  simp only [run, hdiagnostics, hstatements, hreporter, hr, Bool.false_eq_true, if_false]
  rw [present_eq hshown]
  simp only [Turn.behind, List.append_assoc, List.nil_append]
  rfl

/-- No run meets a fault. -/
theorem Session.run_fault (s : Session) (o : Options) (source : String) :
    (s.run o source).fault = none := by
  by_cases h : (s.reporter.read source).program.reporter.hadError = true
  · rw [run_of_flagged h]
  · rw [s.reporter.read_flagged, not_or, Bool.not_eq_true, Classical.not_not] at h
    obtain ⟨shown, -, hrun⟩ := run_of_unflagged (o := o) h.1 h.2
    rw [hrun]
    exact execute_faultless h.2.derives.meaningful s _

/-! ## 3. The flag stays set -/

/-- **All that is done to a session, a reset apart, tells the reporter just what it writes.** -/
theorem Session.act_reporter (s : Session) {a : Session.Action} (ha : a ≠ .reset) :
    (s.act a).session.reporter = s.reporter.reportAll (s.act a).written.diagnostics := by
  cases a with
  | run source o => exact run_reporter s o source
  | interpret source echo =>
      simp only [act, interpret, Turn.behind, Reporter.reportAll_append]
      rw [← Reporter.read_reporter]
      exact execute_reporter _ echo _
  | reset => exact absurd rfl ha
  | renew keepEnv => cases keepEnv <;> rfl
  | define | get | contains | report => rfl

/-- The session after some actions. -/
def Session.after (s : Session) (actions : List Session.Action) : Session :=
  actions.foldl (fun s a => (s.act a).session) s

/-- **The flag stays set until a reset.** -/
theorem Session.after_hadError {actions : List Session.Action} (hreset : .reset ∉ actions)
    (h : s.reporter.hadError = true) : (s.after actions).reporter.hadError = true := by
  induction actions generalizing s with
  | nil => exact h
  | cons a actions ih =>
      obtain ⟨ha, hactions⟩ := List.ne_and_not_mem_of_not_mem_cons hreset
      have hstep : (s.act a).session.reporter.hadError = true := by
        rw [s.act_reporter ha.symm, Reporter.hadError_reportAll, h, Bool.true_or]
      exact ih hactions hstep

/-! ## 4. What is kept -/

/-- Running a source keeps the variables and the memory of runtime errors, and writes nothing but
    lexical and syntax errors and the listing of its tokens. -/
structure Session.Unmoved (s : Session) (o : Options) (source : String) : Prop where
  env : (s.run o source).session.env = s.env
  runtime :
    (s.run o source).session.reporter.hadRuntimeError = s.reporter.hadRuntimeError
  output : (s.run o source).written.output = []
  listings : (s.run o source).written.listings = o.tokenListing source
  static : ∀ d ∈ (s.run o source).written.diagnostics, d.isStatic = true

theorem Session.unmoved_of_flagged
    (h : (s.reporter.read source).program.reporter.hadError = true) : s.Unmoved o source := by
  have hstatic := s.reporter.read_static source
  constructor <;> rw [run_of_flagged h]
  · have hnone : (s.reporter.read source).diagnostics.any (!·.isStatic) = false :=
      List.any_eq_false.mpr fun d hd => by simp [hstatic d hd]
    rw [Reporter.read_reporter, Reporter.hadRuntimeError_reportAll, hnone, Bool.or_false]
  · exact hstatic

theorem Session.unmoved_of_hadError (o : Options) (source : String)
    (h : s.reporter.hadError = true) : s.Unmoved o source :=
  unmoved_of_flagged ((s.reporter.read_flagged source).mpr (.inl h))

/-- Once the flag is set, sources run one after the other keep what a single one keeps. -/
theorem Session.after_runs {actions : List Session.Action}
    (hruns : ∀ a ∈ actions, ∃ source o, a = .run source o) (h : s.reporter.hadError = true) :
    (s.after actions).env = s.env ∧
      (s.after actions).reporter.hadRuntimeError = s.reporter.hadRuntimeError := by
  induction actions generalizing s with
  | nil => exact ⟨rfl, rfl⟩
  | cons a actions ih =>
      obtain ⟨⟨source, o, rfl⟩, hactions⟩ := List.forall_mem_cons.mp hruns
      have hstep := unmoved_of_hadError o source h
      have hflag : (s.after [.run source o]).reporter.hadError = true :=
        after_hadError (by simp) h
      obtain ⟨henv, hruntime⟩ := ih hactions hflag
      exact ⟨henv.trans hstep.env, hruntime.trans hstep.runtime⟩

/-- **A lexical or syntax error keeps the session as it was.** If the flag is set once a source has
    been read, running it changes no variable and prints nothing.  From then on, whatever is done
    but a reset, this holds of every further source.  If the flag is unset after a run, the run
    wrote no lexical or syntax error, and all declarations of the source were executed in order. -/
theorem errors_keep_the_session (s : Session) (o : Options) (source : String) :
    ((s.reporter.read source).program.reporter.hadError = true →
      (s.run o source).session.reporter.hadError = true ∧ s.Unmoved o source) ∧
    (s.reporter.hadError = true → ∀ actions : List Session.Action, .reset ∉ actions →
      (s.after actions).reporter.hadError = true ∧ (s.after actions).Unmoved o source ∧
      ((∀ a ∈ actions, ∃ source o, a = .run source o) → (s.after actions).env = s.env ∧
        (s.after actions).reporter.hadRuntimeError = s.reporter.hadRuntimeError)) ∧
    ((s.run o source).session.reporter.hadError = false →
      (∀ d ∈ (s.run o source).written.diagnostics, d.isStatic = false) ∧
      ∃ ss shown, ss.mapM Stmt.render = .ok shown ∧
        (declarations (scan source).stream.stop (scan source).stream.tokens).map (·.tree) =
          ss.map some ∧
        s.run o source = (s.execute (o.echoes ss) ss).behind
          (o.tokenListing source ++ o.treeListing shown) []) := by
  refine ⟨fun h => ⟨?_, Session.unmoved_of_flagged h⟩, fun h actions hreset => ?_, fun h => ?_⟩
  · rw [Session.run_of_flagged h]
    exact h
  · have hflag := Session.after_hadError hreset h
    exact ⟨hflag, Session.unmoved_of_hadError o source hflag,
      fun hruns => Session.after_runs hruns h⟩
  · have hwritten := h
    rw [run_reporter, Reporter.hadError_reportAll, Bool.or_eq_false_iff,
      List.any_eq_false] at hwritten
    obtain ⟨hr, hstatic⟩ := hwritten
    have hsilent : Silent source := by
      refine Classical.not_not.mp fun hne => ?_
      have hflag := (s.reporter.read_flagged source).mpr (.inr hne)
      rw [Session.run_of_flagged hflag, hflag] at h
      cases h
    obtain ⟨shown, hshown, hrun⟩ := Session.run_of_unflagged (o := o) hr hsilent
    exact ⟨fun d hd => Bool.eq_false_iff.mpr (hstatic d hd), statementsOf source, shown, hshown,
      hsilent.trees, hrun⟩

/-- Two statements that could be executed, and a third without its semicolon: none of them is, and
    neither is what comes behind. -/
theorem errors_keep_the_session_unended :
    let s : Session := { env := ⟨[("x", .string "old")]⟩ }
    let source := "x = \"new\";\nprint x;\nprint x"
    let stale := (s.run {} source).session
    (s.reporter.read source).program.reporter.hadError = true ∧ s.Unmoved {} source ∧
      stale.reporter.hadError = true ∧ stale.Unmoved { echo := true, trees := true } "x = x;" ∧
      (s.run {} "print x;").session.reporter.hadError = false ∧
      ∀ d ∈ (s.run {} "print x;").written.diagnostics, d.isStatic = false := by
  intro s source stale
  have hread : (s.reporter.read source).program.reporter.hadError = true := by decide +kernel
  have hclean : (s.run {} "print x;").session.reporter.hadError = false := by decide +kernel
  obtain ⟨hflag, hunmoved⟩ := (errors_keep_the_session s {} source).1 hread
  have hstale := (errors_keep_the_session stale { echo := true, trees := true } "x = x;").2.1 hflag
    [] List.not_mem_nil
  have hdone := (errors_keep_the_session s {} "print x;").2.2 hclean
  exact ⟨hread, hunmoved, hflag, hstale.2.1, hclean, hdone.1⟩

end Lox
