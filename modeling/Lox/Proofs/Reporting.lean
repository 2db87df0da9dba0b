/-
  File:      Lox/Proofs/Reporting.lean
  Subject:   What a reporter remembers of a reading.

  * `Reporter.hadError_reportAll` -- the flag is set by lexical and syntax errors, and stays set;
  * `Reporter.errorCount_reportAll` -- the count grows by one for each of them;
  * `Reporter.hadRuntimeError_reportAll` -- the other flag is set by runtime errors;
  * `Reporter.read_reporter` -- a reading tells the reporter just what it writes;
  * `Reporter.read_of_clean`, `Reporter.read_of_derives` -- what is read without a report is a
    derived program, and a derived program is read without a report;
  * `Reporter.read_of_unflagged` -- a reading that leaves the flag unset has reported nothing.
-/
import Lox.Proofs.Acceptance

namespace Lox

namespace Reporter

/-! ## 1. Reports -/

theorem reportAll_append (r : Reporter) (ds es : List Diagnostic) :
    r.reportAll (ds ++ es) = (r.reportAll ds).reportAll es :=
  List.foldl_append

/-- **The flag is set by lexical and syntax errors only, and stays set.** -/
theorem hadError_reportAll : ∀ (r : Reporter) (ds : List Diagnostic),
    (r.reportAll ds).hadError = (r.hadError || ds.any Diagnostic.isStatic)
  | r, [] => by simp [reportAll]
  | r, d :: ds => by
      have ih := hadError_reportAll (r.report d) ds
      have hd : (r.report d).hadError = (r.hadError || d.isStatic) := by
        unfold report
        split <;> simp_all
      rw [hd, Bool.or_assoc] at ih
      exact ih

/-- **Lexical and syntax errors are counted, one by one.** -/
theorem errorCount_reportAll : ∀ (r : Reporter) (ds : List Diagnostic),
    (r.reportAll ds).errorCount = r.errorCount + ds.countP Diagnostic.isStatic
  | r, [] => rfl
  | r, d :: ds => by
      have ih := errorCount_reportAll (r.report d) ds
      have hd : (r.report d).errorCount = r.errorCount + if d.isStatic then 1 else 0 := by
        unfold report
        split <;> rfl
      rw [hd] at ih
      rw [List.countP_cons]
      exact ih.trans (by omega)

/-- **The flag for runtime errors is set by these only, and stays set.** -/
theorem hadRuntimeError_reportAll : ∀ (r : Reporter) (ds : List Diagnostic),
    (r.reportAll ds).hadRuntimeError = (r.hadRuntimeError || ds.any (!·.isStatic))
  | r, [] => by simp [reportAll]
  | r, d :: ds => by
      have ih := hadRuntimeError_reportAll (r.report d) ds
      have hd : (r.report d).hadRuntimeError = (r.hadRuntimeError || !d.isStatic) := by
        unfold report
        split <;> simp_all
      rw [hd, Bool.or_assoc] at ih
      exact ih

/-- Lexical and syntax errors that leave the flag unset are none at all. -/
theorem eq_nil_of_unflagged {r : Reporter} {ds : List Diagnostic}
    (hs : ∀ d ∈ ds, d.isStatic = true) (h : (r.reportAll ds).hadError = false) :
    r.hadError = false ∧ ds = [] := by
  rw [hadError_reportAll, Bool.or_eq_false_iff] at h
  refine ⟨h.1, ?_⟩
  cases ds with
  | nil => rfl
  | cons d ds =>
      have hd := hs d List.mem_cons_self
      simp [hd] at h

/-! ## 2. Readings -/

theorem read_static (r : Reporter) (source : String) :
    ∀ d ∈ (r.read source).diagnostics, d.isStatic = true := by
  intro d hd
  simp only [read, parse, List.mem_append, List.mem_map] at hd
  rcases hd with ⟨e, -, rfl⟩ | ⟨e, -, rfl⟩ <;> rfl

/-- A reading tells the reporter just what it writes. -/
theorem read_reporter (r : Reporter) (source : String) :
    (r.read source).program.reporter = r.reportAll (r.read source).diagnostics := by
  simp only [read, reportAll_append]
  rfl

theorem read_program {source : String} (r : Reporter) (h : (scan source).errors = []) :
    (r.read source).program = r.parse (scan source).stream.stop (scan source).stream.tokens := by
  rw [read, h]
  rfl

/-- **Under a reporter without an error, a reading that reports nothing reads a derived
    program.** -/
theorem read_of_clean {r : Reporter} {source : String} (hr : r.hadError = false)
    (h : (r.read source).diagnostics = []) :
    DerivesProgram (scan source).stream.tokens (r.read source).program.statements := by
  obtain ⟨hlexical, hsyntax⟩ := List.append_eq_nil_iff.mp h
  have hclean := parse_diagnostics_eq_nil.mp hsyntax
  rw [r.read_program (List.map_eq_nil_iff.mp hlexical), (parse_of_clean hr hclean).1]
  exact derivesProgram_of_clean _ _ hclean

/-- **Under a reporter without an error, a derived program is read without a report.** -/
theorem read_of_derives {r : Reporter} {source : String} {ss : List Stmt}
    (hr : r.hadError = false) (he : (scan source).errors = [])
    (h : DerivesProgram (scan source).stream.tokens ss) :
    (r.read source).diagnostics = [] ∧ (r.read source).program.statements = ss ∧
      (r.read source).program.reporter = r := by
  obtain ⟨hclean, htrees⟩ := h.declarations_eq (scan source).stream.stop
  obtain ⟨hstatements, hreporter⟩ := parse_of_clean hr hclean
  have hdiagnostics : (r.read source).diagnostics =
      (scan source).errors.map .lexical ++ (r.read source).program.diagnostics := rfl
  rw [hdiagnostics, r.read_program he, hstatements, htrees, he,
    parse_diagnostics_eq_nil.mpr hclean]
  exact ⟨rfl, rfl, hreporter⟩

/-- **A reading that leaves the flag unset** has reported nothing. -/
theorem read_of_unflagged {r : Reporter} {source : String}
    (h : (r.read source).program.reporter.hadError = false) :
    r.hadError = false ∧ (r.read source).diagnostics = [] := by
  rw [read_reporter] at h
  exact eq_nil_of_unflagged (read_static r source) h

end Reporter

end Lox
