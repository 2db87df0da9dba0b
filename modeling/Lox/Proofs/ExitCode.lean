/-
  File:      Lox/Proofs/ExitCode.lean
  Subject:   The exit code of a script tells what it has written.

  A script ends in one of three ways: all its statements are executed and nothing is reported; it
  has lexical or syntax errors and nothing is executed; or one of its statements fails, is reported,
  and is the last one executed.

  * `Diagnostic.texts_eq_empty` -- diagnostics are never written as nothing;
  * `execAll_failed` -- statements that fail have printed what those before the failing one print;
  * `runText_cases` -- the three ways in which a script ends;
  * `ending_zero_iff`, `ending_static_iff`, `ending_runtime_iff` -- the exit code tells which it is;
  * `exit_code_tells_the_streams` -- so each exit code answers to what stands on the two channels.
-/
import Lox.Command.Basic
import Lox.Proofs.Dialogue

namespace Lox

/-! ## 1. Texts of diagnostics -/

theorem Diagnostic.text_ne_empty (d : Diagnostic) : d.text ≠ "" := by
  cases d <;> simp [text, staticText, String.append_eq_empty_iff]

/-- Diagnostics are written as nothing only if there are none. -/
theorem Diagnostic.texts_eq_empty : ∀ {ds : List Diagnostic}, texts ds = "" ↔ ds = []
  | [] => ⟨fun _ => rfl, fun _ => rfl⟩
  | d :: ds => by
      constructor
      · intro h
        rw [texts, List.map_cons, String.join_cons, String.append_eq_empty_iff] at h
        exact absurd h.1 d.text_ne_empty
      · intro h
        cases h

/-! ## 2. Statements that fail -/

theorem Execution.output_ofValue_of_failed {env : Env} {e : Expr} {next : Value → Env → Execution}
    {failure : Failure} (hn : ∀ v env, (next v env).failure = none)
    (h : (ofValue env e next).failure = some failure) : (ofValue env e next).output = [] := by
  unfold ofValue at h ⊢
  generalize e.eval env = x at h ⊢
  rcases x with ⟨f | v, env'⟩
  · rfl
  · have hnone := (hn v env').symm.trans h
    cases hnone

/-- A statement that fails prints nothing. -/
theorem Stmt.output_exec_of_failed {echo : Bool} {env : Env} {stmt : Stmt} {failure : Failure}
    (h : (stmt.exec echo env).failure = some failure) : (stmt.exec echo env).output = [] := by
  match stmt with
  | .expression e | .print e | .var t (some e) =>
      exact Execution.output_ofValue_of_failed (fun _ _ => rfl) h
  | .var t none => cases h
  | .misplaced => rfl

/-- **Statements that fail** have printed just what the statements before the failing one print. -/
theorem execAll_failed {echo : Bool} {failure : Failure} : ∀ {ss : List Stmt} {env : Env},
    (execAll echo env ss).failure = some failure →
    ∃ before failing after, ss = before ++ failing :: after ∧
      (execAll echo env before).failure = none ∧
      (failing.exec echo (execAll echo env before).env).failure = some failure ∧
      (execAll echo env ss).output = (execAll echo env before).output
  | [], _, h => nomatch h
  | stmt :: ss, env, h => by
      rw [execAll] at h ⊢
      cases hx : stmt.exec echo env with
      | mk out env' failed =>
          rw [hx] at h
          cases failed with
          | none =>
              obtain ⟨before, failing, after, rfl, hbefore, hfailing, hout⟩ := execAll_failed h
              refine ⟨stmt :: before, failing, after, rfl, ?_⟩
              simp only [execAll, hx]
              exact ⟨hbefore, hfailing, congrArg (out ++ ·) hout⟩
          | some f =>
              have hfailed : (stmt.exec echo env).failure = some failure := by rw [hx]; exact h
              have hout := Stmt.output_exec_of_failed hfailed
              rw [hx] at hout
              exact ⟨[], stmt, ss, rfl, rfl, hfailed, hout⟩

/-! ## 3. How a script ends -/

/-- One statement of the script fails with `e`; those before it do not fail, and what they print is
    `printed`. -/
def StopsAt (text : String) (e : RuntimeError) (printed : String) : Prop :=
  ∃ before failing after, statementsOf text = before ++ failing :: after ∧
    (execAll false {} before).failure = none ∧
    (failing.exec false (execAll false {} before).env).failure = some (.runtime e) ∧
    printed = unlines (execAll false {} before).output

/-- What a script reports. -/
def reportsOf (text : String) : List Diagnostic :=
  (Session.run {} {} text).written.diagnostics

theorem errText_runText (text : String) :
    (runText {} text).console.errText = Diagnostic.texts (reportsOf text) :=
  Console.errText_ofTranscript _

/-- **A script ends in one of three ways**: nothing is reported; lexical and syntax errors are
    reported and nothing is printed; or one runtime error is reported. -/
theorem runText_cases (text : String) :
    ((runText {} text).ending = .exit 0 ∧ reportsOf text = []) ∨
    ((runText {} text).ending = .exit 65 ∧ (runText {} text).console.outText = "" ∧
      reportsOf text ≠ [] ∧ ∀ d ∈ reportsOf text, d.isStatic = true) ∨
    ((runText {} text).ending = .exit 70 ∧ ∃ e, reportsOf text = [.runtime e] ∧
      StopsAt text e (runText {} text).console.outText) := by
  have hout : (runText {} text).console.outText = (Session.run {} {} text).written.printed :=
    Console.outText_ofTranscript _
  have hending : (runText {} text).ending =
      .exit (Exit.ofReporter (Session.run {} {} text).session.reporter) := by
    simp only [runText, Session.run_fault]
  rw [hout, hending, reportsOf]
  by_cases hsilent : Silent text
  · rw [hsilent.run_eq rfl, Session.execute]
    cases hx : execAll false {} (statementsOf text) with
    | mk out env failed =>
        rcases failed with _ | (e | fault)
        · exact .inl ⟨rfl, rfl⟩
        · refine .inr (.inr ⟨rfl, e, rfl, ?_⟩)
          obtain ⟨before, failing, after, hss, hbefore, hfailing, hprinted⟩ :=
            execAll_failed (congrArg Execution.failure hx)
          refine ⟨before, failing, after, hss, hbefore, hfailing, ?_⟩
          rw [hx] at hprinted
          simp only [Transcript.printed, unlines_nil, String.empty_append]
          exact congrArg unlines hprinted
        · exact absurd (congrArg Execution.failure hx)
            (execAll_faultless false fault _ _ hsilent.derives.meaningful)
  · have hflag := (({} : Reporter).read_flagged text).mpr (.inr hsilent)
    rw [Session.run_of_flagged hflag]
    refine .inr (.inl ⟨?_, rfl, hsilent, Reporter.read_static _ text⟩)
    simp only [Exit.ofReporter, hflag, if_true]
    rfl

/-! ## 4. Exit codes -/

section Codes

variable (text : String)

theorem ending_codes : (runText {} text).ending = .exit 0 ∨ (runText {} text).ending = .exit 65 ∨
    (runText {} text).ending = .exit 70 :=
  (runText_cases text).imp And.left (Or.imp And.left And.left)

/-- The exit code is 0 just when nothing is reported. -/
theorem ending_zero_iff : (runText {} text).ending = .exit 0 ↔ reportsOf text = [] := by
  rcases runText_cases text with ⟨hcode, hnone⟩ | ⟨hcode, -, hne, -⟩ | ⟨hcode, e, he, -⟩
  · simp only [hcode, hnone]
  · simp [hcode, hne]
  · simp [hcode, he]

/-- The exit code is 65 just when a lexical or syntax error is reported. -/
theorem ending_static_iff :
    (runText {} text).ending = .exit 65 ↔ ∃ d ∈ reportsOf text, d.isStatic = true := by
  rcases runText_cases text with ⟨hcode, hnone⟩ | ⟨hcode, -, hne, hstatic⟩ | ⟨hcode, e, he, -⟩
  · simp [hcode, hnone]
  · obtain ⟨d, hd⟩ := List.exists_mem_of_ne_nil _ hne
    exact ⟨fun _ => ⟨d, hd, hstatic d hd⟩, fun _ => hcode⟩
  · simp [hcode, he, Diagnostic.isStatic]

/-- The exit code is 70 just when a runtime error is reported, and nothing else. -/
theorem ending_runtime_iff :
    (runText {} text).ending = .exit 70 ↔ ∃ e, reportsOf text = [.runtime e] := by
  rcases runText_cases text with ⟨hcode, hnone⟩ | ⟨hcode, -, -, hstatic⟩ | ⟨hcode, e, he, -⟩
  · simp [hcode, hnone]
  · have hruntime : ∀ e, reportsOf text ≠ [.runtime e] := by
      intro e he
      have hd := hstatic (.runtime e) (he ▸ List.mem_cons_self)
      cases hd
    simp [hcode, hruntime]
  · simp [hcode, he]

variable {text}

/-- A script with lexical or syntax errors prints nothing, and reports no other errors. -/
theorem quiet_of_static (h : (runText {} text).ending = .exit 65) :
    (runText {} text).console.outText = "" ∧ ∀ d ∈ reportsOf text, d.isStatic = true := by
  rcases runText_cases text with ⟨hcode, -⟩ | ⟨-, hout, -, hstatic⟩ | ⟨hcode, -⟩
  · rw [hcode] at h
    cases h
  · exact ⟨hout, hstatic⟩
  · rw [hcode] at h
    cases h

/-- A script with a runtime error has printed what stands before the failing statement. -/
theorem stopsAt_of_reports {e : RuntimeError} (h : reportsOf text = [.runtime e]) :
    StopsAt text e (runText {} text).console.outText := by
  have hcode := (ending_runtime_iff text).mpr ⟨e, h⟩
  rcases runText_cases text with ⟨hcode', -⟩ | ⟨hcode', -⟩ | ⟨-, e', he, hstops⟩
  · rw [hcode] at hcode'
    cases hcode'
  · rw [hcode] at hcode'
    cases hcode'
  · rw [h] at he
    cases he
    exact hstops

end Codes

theorem runScript_eq {w : World} {name text : String} {bytes : ByteArray} (o : Options)
    (hname : '\x00' ∉ name.toList) (hfile : w.file name = .ok bytes)
    (htext : Text.decode? bytes = some text) : runScript w o name = runText o text := by
  simp only [runScript, if_neg hname, hfile, htext]

/-- **The exit code tells what a script has written.** It is 0, 65 or 70.  It is 0 just when nothing
    stands on the error channel; 65 just when a lexical or syntax error does, and then there is no
    output and no runtime error; and 70 just when one runtime error stands there alone, and then
    the output is that of the statements before the failing one. -/
theorem exit_code_tells_the_streams (w : World) {name text : String} {bytes : ByteArray}
    (hname : '\x00' ∉ name.toList) (hfile : w.file name = .ok bytes)
    (htext : Text.decode? bytes = some text) :
    let f := runScript w {} name
    f.console.errText = Diagnostic.texts (reportsOf text) ∧
    (f.ending = .exit 0 ∨ f.ending = .exit 65 ∨ f.ending = .exit 70) ∧
    (f.ending = .exit 0 ↔ f.console.errText = "") ∧
    (f.ending = .exit 65 ↔ ∃ d ∈ reportsOf text, d.isStatic = true) ∧
    (f.ending = .exit 65 → f.console.outText = "" ∧ ∀ d ∈ reportsOf text, d.isStatic = true) ∧
    (f.ending = .exit 70 ↔ ∃ e, reportsOf text = [.runtime e]) ∧
    (∀ e, reportsOf text = [.runtime e] → StopsAt text e f.console.outText ∧
      f.console.errText = e.message ++ "\n[line " ++ toString e.token.line ++ "]\n") := by
  intro f
  have hf : f = runText {} text := runScript_eq {} hname hfile htext
  have herr : f.console.errText = Diagnostic.texts (reportsOf text) := by
    rw [hf, errText_runText]
  rw [herr, Diagnostic.texts_eq_empty, hf]
  refine ⟨rfl, ending_codes text, ending_zero_iff text, ending_static_iff text,
    quiet_of_static, ending_runtime_iff text, fun e he => ⟨stopsAt_of_reports he, ?_⟩⟩
  rw [he]
  simp [Diagnostic.texts, Diagnostic.text]

/-- A script on three lines that stops in the middle of the last. -/
theorem exit_code_tells_unbound :
    let source := "var a = \"x\";\r\nprint a;\r\nprint a + b; print a;"
    let text := "var a = \"x\";\nprint a;\nprint a + b; print a;"
    let w : World := { file := fun _ => .ok source.toUTF8 }
    let e : RuntimeError :=
      ⟨{ kind := .identifier, lexeme := "b", line := 3 }, .undefinedVariable⟩
    let f := runScript w {} "a.lox"
    '\x00' ∉ "a.lox".toList ∧ w.file "a.lox" = .ok source.toUTF8 ∧
      Text.decode? source.toUTF8 = some text ∧ reportsOf text = [.runtime e] ∧
      f.ending = .exit 70 ∧ StopsAt text e f.console.outText ∧
      f.console.errText = "Undefined variable 'b'.\n[line 3]\n" := by
  intro source text w e f
  have hname : '\x00' ∉ "a.lox".toList := by decide
  have hfile : w.file "a.lox" = .ok source.toUTF8 := rfl
  have htext : Text.decode? source.toUTF8 = some text := by decide +kernel
  have hreports : reportsOf text = [.runtime e] := by decide +kernel
  have hwording : e.message ++ "\n[line " ++ toString e.token.line ++ "]\n" =
      "Undefined variable 'b'.\n[line 3]\n" := by decide +kernel
  obtain ⟨-, -, -, -, -, hcode, hstop⟩ := exit_code_tells_the_streams w hname hfile htext
  obtain ⟨hstops, herr⟩ := hstop e hreports
  exact ⟨hname, hfile, htext, hreports, hcode.mpr ⟨e, hreports⟩, hstops, herr.trans hwording⟩

end Lox
