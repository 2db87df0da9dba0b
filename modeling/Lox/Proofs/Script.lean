/-
  File:      Lox/Proofs/Script.lean
  Subject:   A script does what its sources do one after the other.

  Sources joined by line breaks make a SCRIPT.  A source that reports nothing and does not end
  inside a comment is cut, read and executed in the script as it is alone; what stands behind it is
  read so many lines further down, and lines are only labels.

  * `Silent`, `EndsInComment` -- the sources a script is made of;
  * `Silent.join` -- the statements of two sources joined by a line break;
  * `execAll_append` -- statements executed in two goes;
  * `run_join` -- two sources joined by a line break and run;
  * `Session.runAll`, `script_runs_as_its_sources` -- any number of them.
-/
import Lox.Proofs.Counting
import Lox.Proofs.Labels
import Lox.Proofs.Safety

namespace Lox

/-! ## 1. Sources that report nothing -/

/-- True of the sources that are scanned and parsed without a report. -/
def Silent (source : String) : Prop :=
  (({} : Reporter).read source).diagnostics = []

instance : DecidablePred Silent :=
  fun source => inferInstanceAs (Decidable ((({} : Reporter).read source).diagnostics = []))

/-- True of the sources that end inside a block comment. -/
def EndsInComment (source : String) : Prop :=
  ∃ p ∈ pieces source.toList, p.OpenComment

instance : DecidablePred EndsInComment :=
  fun source => inferInstanceAs (Decidable (∃ p ∈ pieces source.toList, p.OpenComment))

/-- The statements of a source. -/
def statementsOf (source : String) : List Stmt :=
  (({} : Reporter).read source).program.statements

variable {source a b : String}

/-- A silent source is a derived program. -/
theorem Silent.derives (h : Silent source) :
    DerivesProgram (scan source).stream.tokens (statementsOf source) :=
  Reporter.read_of_clean rfl h

theorem Silent.errors_eq_nil (h : Silent source) : (scan source).errors = [] :=
  List.map_eq_nil_iff.mp (List.append_eq_nil_iff.mp h).1

/-- Under a reporter without an error a silent source holds its statements, and the reporter stays
    as it was. -/
theorem Silent.read_eq (h : Silent source) {r : Reporter} (hr : r.hadError = false) :
    (r.read source).diagnostics = [] ∧
      (r.read source).program.statements = statementsOf source ∧
      (r.read source).program.reporter = r :=
  Reporter.read_of_derives hr h.errors_eq_nil h.derives

/-! ## 2. Two sources joined -/

/-- A string that is not closed is a lexical error. -/
theorem not_unclosed (h : ∀ e ∈ (scan source).errors, e.cause ≠ .unterminatedString) :
    ∀ p ∈ pieces source.toList, p.role ≠ .unclosed := by
  intro _ hp hrole
  obtain ⟨⟨p, n⟩, hn, rfl⟩ := List.mem_map.mp hp
  have herr : p.error? n = some ⟨n, .unterminatedString⟩ := by rw [Piece.error?, hrole]
  exact h _ (List.mem_filterMap.mpr ⟨(p, n), hn, herr⟩) rfl

/-- How many lines a source pushes down what stands behind it and a line break. -/
def height (source : String) : Int :=
  newlines source.toList + 1

/-- **Two sources joined by a line break are scanned one after the other**, if the first does not
    end inside a string or a comment. -/
theorem scan_join (hq : ∀ e ∈ (scan a).errors, e.cause ≠ .unterminatedString)
    (hc : ¬ EndsInComment a) (b : String) :
    scan (a ++ "\n" ++ b) = (scan a).followedBy ((scan b).shift (height a)) := by
  have hfinished : ∀ p ∈ pieces a.toList, ¬ p.Unfinished := by
    rintro p hp (hrole | hopen)
    · exact not_unclosed hq p hp hrole
    · exact hc ⟨p, hp, hopen⟩
  have hchars : (a ++ "\n" ++ b).toList = a.toList ++ '\n' :: b.toList := by simp
  rw [scan, hchars, scanFrom_newline 1 b.toList hfinished]
  rfl

theorem relabels_shift (k : Int) : Relabels (Token.shift k) :=
  ⟨fun _ => rfl, fun _ => rfl, fun _ => rfl⟩

/-- **The statements of two sources joined by a line break** are those of the first and, on other
    lines, those of the second. -/
theorem Silent.join (ha : Silent a) (hc : ¬ EndsInComment a) (hb : Silent b) :
    Silent (a ++ "\n" ++ b) ∧ statementsOf (a ++ "\n" ++ b) =
      statementsOf a ++ (statementsOf b).map (Stmt.relabel (Token.shift (height a))) := by
  have hq : ∀ e ∈ (scan a).errors, e.cause ≠ .unterminatedString := by
    rw [ha.errors_eq_nil]
    exact fun e he => absurd he List.not_mem_nil
  have hscan := scan_join hq hc b
  have herrors : (scan (a ++ "\n" ++ b)).errors = [] := by
    rw [hscan, Scan.followedBy, Scan.shift, ha.errors_eq_nil, hb.errors_eq_nil]
    rfl
  have hderives : DerivesProgram (scan (a ++ "\n" ++ b)).stream.tokens (statementsOf a ++
      (statementsOf b).map (Stmt.relabel (Token.shift (height a)))) := by
    rw [hscan]
    exact ha.derives.append (hb.derives.relabel (relabels_shift (height a)))
  have hr : ({} : Reporter).hadError = false := rfl
  obtain ⟨hsilent, hstatements, -⟩ := Reporter.read_of_derives hr herrors hderives
  exact ⟨hsilent, hstatements⟩

/-! ## 3. Statements executed in two goes -/

theorem execAll_append (echo : Bool) (ss' : List Stmt) : ∀ (env : Env) (ss : List Stmt),
    (execAll echo env ss).failure = none →
    execAll echo env (ss ++ ss') =
      let x := execAll echo env ss
      let y := execAll echo x.env ss'
      ⟨x.output ++ y.output, y.env, y.failure⟩
  | env, [], _ => rfl
  | env, s :: ss, h => by
      rw [List.cons_append]
      rw [execAll] at h ⊢
      rw [execAll]
      generalize s.exec echo env = x at h ⊢
      rcases x with ⟨out, env', _ | failure⟩
      · have ih := execAll_append echo ss' env' ss h
        simp only [ih, List.append_assoc]
      · cases h

theorem execAll_append_of_failed {echo : Bool} {failure : Failure} (ss' : List Stmt) :
    ∀ (env : Env) (ss : List Stmt), (execAll echo env ss).failure = some failure →
      execAll echo env (ss ++ ss') = execAll echo env ss
  | env, [], h => nomatch h
  | env, s :: ss, h => by
      rw [List.cons_append]
      rw [execAll] at h ⊢
      rw [execAll]
      generalize s.exec echo env = x at h ⊢
      rcases x with ⟨out, env', _ | failure⟩
      · simp only [execAll_append_of_failed ss' env' ss h]
      · rfl

/-- **Statements executed in two goes by a session**: nothing of the second go if the first fails,
    and otherwise the second from where the first ended. -/
theorem Session.execute_append {ss : List Stmt} (hss : ∀ stmt ∈ ss, stmt.Meaningful) (s : Session)
    (echo : Bool) (ss' : List Stmt) :
    let t := s.execute echo ss
    let u := t.session.execute echo ss'
    ((∃ e, t.written.diagnostics = [.runtime e]) ∧ s.execute echo (ss ++ ss') = t) ∨
    (t.written.diagnostics = [] ∧ t.session.reporter = s.reporter ∧ s.execute echo (ss ++ ss') =
      { u with written := { u.written with output := t.written.output ++ u.written.output } }) := by
  unfold Session.execute
  cases hx : (execAll echo s.env ss).failure with
  | none =>
      refine .inr ⟨by simp only [hx], by simp only [hx], ?_⟩
      rw [execAll_append echo ss' s.env ss hx]
      simp only [hx]
      rcases execAll echo (execAll echo s.env ss).env ss' with ⟨out, env, _ | (e | fault)⟩ <;> rfl
  | some failure =>
      rw [execAll_append_of_failed ss' s.env ss hx]
      cases failure with
      | runtime e => exact .inl ⟨⟨e, by simp only [hx]⟩, rfl⟩
      | fault f => exact absurd hx (execAll_faultless echo f ss s.env hss)

/-! ## 4. Two sources run -/

variable {s : Session}

theorem Silent.run_eq (h : Silent source) (hr : s.reporter.hadError = false) :
    s.run {} source = s.execute false (statementsOf source) := by
  obtain ⟨hdiagnostics, hstatements, hreporter⟩ := h.read_eq hr
  simp [Session.run, Session.present, hdiagnostics, hstatements, hreporter, hr, Turn.behind]

/-- **Two sources joined by a line break and run**: nothing of the second if the first fails, and
    otherwise the second after the first, with the lines of its errors further down. -/
theorem run_join (ha : Silent a) (hc : ¬ EndsInComment a) (hb : Silent b)
    (hr : s.reporter.hadError = false) :
    let t := s.run {} a
    let u := (t.session.run {} b).relabel (Token.shift (height a))
    ((∃ e, t.written.diagnostics = [.runtime e]) ∧ s.run {} (a ++ "\n" ++ b) = t) ∨
    (t.written.diagnostics = [] ∧ t.session.reporter = s.reporter ∧ s.run {} (a ++ "\n" ++ b) =
      { u with written := { u.written with output := t.written.output ++ u.written.output } }) := by
  obtain ⟨hsilent, hstatements⟩ := ha.join hc hb
  have happend := s.execute_append ha.derives.meaningful false
    ((statementsOf b).map (Stmt.relabel (Token.shift (height a))))
  rw [← hstatements, ← hsilent.run_eq hr, ← ha.run_eq hr] at happend
  rcases happend with hfailed | ⟨hdone, hreporter, hwhole⟩
  · exact .inl hfailed
  · refine .inr ⟨hdone, hreporter, ?_⟩
    rw [hwhole, Session.execute_relabel (relabels_shift _), ← hb.run_eq (by rw [hreporter, hr])]

/-! ## 5. Scripts -/

/-- True of the turns that report a runtime error. -/
def Turn.failed (t : Turn) : Bool :=
  t.written.diagnostics.any fun d => !d.isStatic

/-- Sources run one after the other, up to the first that reports a runtime error, each with what
    it did. -/
def Session.runAll (s : Session) : List String → List Turn
  | [] => []
  | source :: sources =>
    let t := s.run {} source
    t :: if t.failed then [] else t.session.runAll sources

/-- What a script reports answers to what its sources report: nothing to nothing; and to a runtime
    error of a source the same error, as many lines further down as end before the source. -/
inductive SameErrors : List String → List Turn → List Diagnostic → Prop
  | none {sources : List String} {turns : List Turn} (hlength : turns.length = sources.length)
      (hnone : ∀ t ∈ turns, t.written.diagnostics = []) : SameErrors sources turns []
  | failed {before : List String} {source : String} {after : List String} {turns : List Turn}
      {t : Turn} {e e' : RuntimeError} (hlength : turns.length = before.length)
      (hnone : ∀ u ∈ turns, u.written.diagnostics = [])
      (ht : t.written.diagnostics = [.runtime e]) (hmessage : e'.message = e.message)
      (hline : e'.token.line =
        e.token.line + newlines (before.flatMap fun b => b.toList ++ ['\n'])) :
      SameErrors (before ++ source :: after) (turns ++ [t]) [.runtime e']

theorem SameErrors.cons {sources : List String} {turns : List Turn} {reported : List Diagnostic}
    {t : Turn} (h : SameErrors sources turns reported) (a : String)
    (ht : t.written.diagnostics = []) :
    SameErrors (a :: sources) (t :: turns)
      (reported.map (Diagnostic.relabel (Token.shift (height a)))) := by
  cases h with
  | none hlength hnone =>
      exact .none (congrArg (· + 1) hlength) (List.forall_mem_cons.mpr ⟨ht, hnone⟩)
  | @failed before source after turns u e e' hlength hnone hu hmessage hline =>
      have hmessage' := (RuntimeError.message_relabel (relabels_shift (height a)) e').trans hmessage
      have hline' : (e'.relabel (Token.shift (height a))).token.line = e.token.line +
          newlines ((a :: before).flatMap fun b => b.toList ++ ['\n']) := by
        have hcount : newlines ['\n'] = 1 := rfl
        simp only [RuntimeError.relabel, Token.shift, hline, height, List.flatMap_cons,
          newlines_append, hcount]
        omega
      have hlength' : (t :: turns).length = (a :: before).length := congrArg (· + 1) hlength
      exact .failed hlength' (List.forall_mem_cons.mpr ⟨ht, hnone⟩) hu hmessage' hline'

theorem sameErrors_first {t : Turn} {e : RuntimeError} (source : String) (after : List String)
    (h : t.written.diagnostics = [.runtime e]) :
    SameErrors (source :: after) [t] t.written.diagnostics := by
  have hnil : ∀ u ∈ ([] : List Turn), u.written.diagnostics = [] :=
    fun u hu => absurd hu List.not_mem_nil
  have hlength : ([] : List Turn).length = ([] : List String).length := rfl
  rw [h]
  exact .failed hlength hnil h rfl (Int.add_zero _).symm

/-- What a silent source writes: no listings, and at most one diagnostic. -/
theorem Silent.run_written (h : Silent source) (hr : s.reporter.hadError = false) :
    (s.run {} source).written.listings = [] ∧ ((s.run {} source).written.diagnostics = [] ∨
      ∃ e, (s.run {} source).written.diagnostics = [.runtime e]) := by
  rw [h.run_eq hr]
  exact s.execute_written false (statementsOf source)

theorem Session.runAll_of_failed {e : RuntimeError}
    (h : (s.run {} source).written.diagnostics = [.runtime e]) (sources : List String) :
    s.runAll (source :: sources) = [s.run {} source] := by
  have hfailed : (s.run {} source).failed = true := by rw [Turn.failed, h]; rfl
  rw [runAll, if_pos hfailed]

theorem Session.runAll_of_done (h : (s.run {} source).written.diagnostics = [])
    (sources : List String) :
    s.runAll (source :: sources) = s.run {} source :: (s.run {} source).session.runAll sources := by
  have hfailed : (s.run {} source).failed = false := by rw [Turn.failed, h]; rfl
  rw [runAll, hfailed]
  rfl

/-- A script of silent sources is silent. -/
theorem silent_script : ∀ {sources : List String}, (∀ source ∈ sources, Silent source) →
    (∀ source ∈ sources.dropLast, ¬ EndsInComment source) →
    Silent ("\n".intercalate sources)
  | [], _, _ => by
      rw [String.intercalate_nil]
      decide +kernel
  | [a], hs, _ => by
      rw [String.intercalate_singleton]
      exact hs a List.mem_cons_self
  | a :: b :: rest, hs, hc => by
      rw [String.intercalate_cons_cons]
      obtain ⟨ha, hs⟩ := List.forall_mem_cons.mp hs
      obtain ⟨hca, hc⟩ := List.forall_mem_cons.mp hc
      exact (ha.join hca (silent_script hs hc)).1

theorem unlines_append (xs ys : List String) : unlines (xs ++ ys) = unlines xs ++ unlines ys := by
  simp only [unlines, List.map_append, String.join_append]

/-- **A script does what its sources do one after the other**, up to the first that reports a
    runtime error: it prints the same, ends with the same scope and the same reporter, and reports
    the same error on its own line. -/
theorem script_runs_as_its_sources : ∀ (sources : List String) (s : Session),
    s.reporter.hadError = false → (∀ source ∈ sources, Silent source) →
    (∀ source ∈ sources.dropLast, ¬ EndsInComment source) →
    let turns := s.runAll sources
    let whole := s.run {} ("\n".intercalate sources)
    whole.written.printed = String.join (turns.map (·.written.printed)) ∧
      whole.session = (turns.map (·.session)).getLastD s ∧
      SameErrors sources turns whole.written.diagnostics
  | [], s, hr, hs, hc => by
      have hnone : statementsOf "" = [] := by decide +kernel
      rw [(silent_script hs hc).run_eq hr, String.intercalate_nil, hnone]
      exact ⟨rfl, rfl, .none rfl fun t ht => absurd ht List.not_mem_nil⟩
  | [a], s, hr, hs, _ => by
      rw [String.intercalate_singleton]
      rcases ((hs a List.mem_cons_self).run_written hr).2 with hdone | ⟨e, he⟩
      · have herrors : SameErrors [a] [s.run {} a] (s.run {} a).written.diagnostics := by
          rw [hdone]
          exact .none rfl (List.forall_mem_singleton.mpr hdone)
        rw [Session.runAll_of_done hdone, Session.runAll]
        exact ⟨by simp, rfl, herrors⟩
      · rw [Session.runAll_of_failed he]
        exact ⟨by simp, rfl, sameErrors_first a [] he⟩
  | a :: b :: rest, s, hr, hs, hc => by
      -- only here does a line break follow `a`, so only here must it not end inside a comment
      obtain ⟨ha, hs⟩ := List.forall_mem_cons.mp hs
      obtain ⟨hca, hc⟩ := List.forall_mem_cons.mp hc
      rw [String.intercalate_cons_cons]
      have hscript := silent_script hs hc
      rcases run_join ha hca hscript hr with ⟨⟨e, he⟩, hwhole⟩ | ⟨hdone, hreporter, hwhole⟩
      · rw [Session.runAll_of_failed he, hwhole]
        exact ⟨by simp, rfl, sameErrors_first a (b :: rest) he⟩
      · have hr' : (s.run {} a).session.reporter.hadError = false := by rw [hreporter, hr]
        obtain ⟨hprinted, hsession, herrors⟩ :=
          script_runs_as_its_sources (b :: rest) (s.run {} a).session hr' hs hc
        rw [Session.runAll_of_done hdone, hwhole]
        refine ⟨?_, ?_, herrors.cons a hdone⟩
        · have ht := (ha.run_written hr).1
          have hu := (hscript.run_written hr').1
          rw [List.map_cons, String.join_cons, ← hprinted]
          simp only [Transcript.printed, Turn.relabel, ht, hu, unlines_append]
          rfl
        · rw [List.map_cons, List.getLastD_cons, ← hsession]
          rfl

/-- Three sources, of which the second fails on its second line. The script prints what the first
    two print and fails on its fifth line, since three lines end before the second source. -/
theorem script_runs_as_its_sources_unbound :
    let sources := ["var x = \"a\nb\"; /* \n */ print x;", "print x + x;\nprint x + y;",
      "print x; /* open"]
    let turns := ({} : Session).runAll sources
    let whole := ({} : Session).run {} ("\n".intercalate sources)
    ({} : Session).reporter.hadError = false ∧ (∀ source ∈ sources, Silent source) ∧
      (∀ source ∈ sources.dropLast, ¬ EndsInComment source) ∧
      turns.map (·.written.printed) = ["a\nb\n", "a\nba\nb\n"] ∧
      turns.map (·.written.diagnostics.map (·.text)) =
        [[], ["Undefined variable 'y'.\n[line 2]\n"]] ∧
      whole.written.printed = String.join (turns.map (·.written.printed)) ∧
      whole.written.printed = "a\nb\na\nba\nb\n" ∧
      whole.session = (turns.map (·.session)).getLastD {} ∧
      whole.session.env.get? "x" = some (.string "a\nb") ∧
      SameErrors sources turns whole.written.diagnostics ∧
      whole.written.diagnostics.map (·.text) = ["Undefined variable 'y'.\n[line 5]\n"] := by
  intro sources turns whole
  have hs : ∀ source ∈ sources, Silent source := by decide +kernel
  have hc : ∀ source ∈ sources.dropLast, ¬ EndsInComment source := by decide +kernel
  have hturns : turns.map (·.written.printed) = ["a\nb\n", "a\nba\nb\n"] := by decide +kernel
  have hreports : turns.map (·.written.diagnostics.map (·.text)) =
      [[], ["Undefined variable 'y'.\n[line 2]\n"]] := by decide +kernel
  have hscope : ((turns.map Turn.session).getLastD {}).env.get? "x" = some (.string "a\nb") := by
    decide +kernel
  obtain ⟨hprinted, hsession, herrors⟩ := script_runs_as_its_sources sources {} rfl hs hc
  have hjoined : whole.written.printed = "a\nb\na\nba\nb\n" := by
    rw [hprinted, hturns]
    rfl
  exact ⟨rfl, hs, hc, hturns, hreports, hprinted, hjoined, hsession, hsession ▸ hscope, herrors,
    by decide +kernel⟩

end Lox
