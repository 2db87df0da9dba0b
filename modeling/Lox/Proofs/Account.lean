/-
  File:      Lox/Proofs/Account.lean
  Subject:   The reporter keeps account of what is written.

  Scanners, parsers and evaluators tell one reporter of their errors.  Whatever they do, and in
  whatever order, it remembers just what has been written since the last reset: an error that was
  recovered from, returned to the caller or dropped is counted once like any other.

  * `Operation`, `Operation.perform` -- what can be done under a reporter, and what that writes;
  * `Operation.perform_reporter` -- all but a reset tells the reporter just what it writes;
  * `Reporter.after`, `Reporter.writtenBy` -- operations one after the other;
  * `untilReset`, `sinceReset` -- the two sides of the last reset;
  * `reporter_keeps_account` -- the flags and the count after any history.
-/
import Lox.Proofs.Gate
import Lox.Proofs.Progress
import Mathlib.Data.List.DropRight

namespace Lox

/-! ## 1. Operations -/

/-- What can be done under a reporter.  A parser may stand anywhere in any stream, statements may be
    any trees, and the variables may be any: those that earlier operations have left are among
    them. -/
inductive Operation where
  /-- Scan a source. -/
  | scan (source : String)
  /-- Ask something of a parser. -/
  | ask (stream : Token.Stream) (position : Nat) (call : Cursor.Call)
  /-- Execute statements. -/
  | execute (env : Env) (echo : Bool) (statements : List Stmt)
  /-- Do something to a session: run a source, report an error, reset the reporter and so on. -/
  | act (env : Env) (action : Session.Action)

namespace Operation

/-- The reporter after an operation, and what the operation wrote. -/
def perform (r : Reporter) : Operation → Reporter × List Diagnostic
  | .scan source =>
    let found := (Lox.scan source).errors.map Diagnostic.lexical
    (r.reportAll found, found)
  | .ask stream position call =>
    let p := (⟨stream, position, r⟩ : Cursor).perform call
    (p.cursor.reporter, p.diagnostics)
  | .execute env echo statements =>
    let t := (⟨env, r⟩ : Session).execute echo statements
    (t.session.reporter, t.written.diagnostics)
  | .act env action =>
    let t := (⟨env, r⟩ : Session).act action
    (t.session.reporter, t.written.diagnostics)

/-- True of resets. -/
def isReset : Operation → Bool
  | .act _ .reset => true
  | _ => false

end Operation

/-- **An operation that is no reset tells the reporter just what it writes.** -/
theorem Operation.perform_reporter {op : Operation} (h : op.isReset = false) (r : Reporter) :
    (op.perform r).1 = r.reportAll (op.perform r).2 := by
  cases op with
  | scan source => rfl
  | ask stream position call => exact (Cursor.perform_frame _ call).2
  | execute env echo statements => exact execute_reporter _ echo statements
  | act env action =>
      refine Session.act_reporter _ ?_
      rintro rfl
      cases h

/-- A reset clears the reporter. -/
theorem Operation.perform_reset {op : Operation} (h : op.isReset = true) (r : Reporter) :
    (op.perform r).1 = {} := by
  unfold isReset at h
  split at h
  · rfl
  · cases h

/-! ## 2. Histories -/

namespace Reporter

/-- The reporter after some operations. -/
def after (r : Reporter) (ops : List Operation) : Reporter :=
  ops.foldl (fun r op => (op.perform r).1) r

/-- What some operations write. -/
def writtenBy (r : Reporter) : List Operation → List Diagnostic
  | [] => []
  | op :: ops => (op.perform r).2 ++ (op.perform r).1.writtenBy ops

theorem after_append (r : Reporter) (ops later : List Operation) :
    r.after (ops ++ later) = (r.after ops).after later :=
  List.foldl_append

/-- **Operations without a reset tell the reporter just what they write.** -/
theorem after_eq_reportAll {ops : List Operation} (h : ∀ op ∈ ops, op.isReset = false)
    (r : Reporter) : r.after ops = r.reportAll (r.writtenBy ops) := by
  induction ops generalizing r with
  | nil => rfl
  | cons op ops ih =>
      obtain ⟨hop, hops⟩ := List.forall_mem_cons.mp h
      have hstep := Operation.perform_reporter hop r
      calc r.after (op :: ops)
          = (op.perform r).1.after ops := rfl
        _ = (op.perform r).1.reportAll ((op.perform r).1.writtenBy ops) := ih hops _
        _ = (r.reportAll (op.perform r).2).reportAll ((op.perform r).1.writtenBy ops) := by
              rw [← hstep]
        _ = r.reportAll (r.writtenBy (op :: ops)) := (reportAll_append ..).symm

end Reporter

/-- The operations up to the last reset, the reset included; none if there was no reset. -/
def untilReset (ops : List Operation) : List Operation :=
  ops.rdropWhile (!·.isReset)

/-- The operations behind the last reset; all of them if there was no reset. -/
def sinceReset (ops : List Operation) : List Operation :=
  ops.rtakeWhile (!·.isReset)

theorem isReset_of_mem_sinceReset {ops : List Operation} :
    ∀ op ∈ sinceReset ops, op.isReset = false := by
  intro op hop
  have h := List.mem_rtakeWhile_imp hop
  simpa using h

/-- Up to the last reset nothing is remembered. -/
theorem after_untilReset (ops : List Operation) : ({} : Reporter).after (untilReset ops) = {} := by
  by_cases hne : untilReset ops = []
  · rw [hne]
    rfl
  · have hlast : ¬ (!((untilReset ops).getLast hne).isReset) = true :=
      List.rdropWhile_last_not _ ops hne
    rw [← List.dropLast_append_getLast hne, Reporter.after_append]
    exact Operation.perform_reset (by simpa using hlast) _

/-- What the reporter remembers is what was written since the last reset. -/
theorem after_eq_sinceReset (ops : List Operation) :
    ({} : Reporter).after ops =
      ({} : Reporter).reportAll (({} : Reporter).writtenBy (sinceReset ops)) := by
  have hsplit : untilReset ops ++ sinceReset ops = ops := List.rdropWhile_append_rtakeWhile
  calc ({} : Reporter).after ops
      = (({} : Reporter).after (untilReset ops)).after (sinceReset ops) := by
          rw [← Reporter.after_append, hsplit]
    _ = ({} : Reporter).after (sinceReset ops) := by rw [after_untilReset]
    _ = _ := Reporter.after_eq_reportAll isReset_of_mem_sinceReset _

/-! ## 3. The account -/

/-- **The reporter keeps account of what is written.** After any history of a new reporter, the flag
    for lexical and syntax errors is set just when the count is not zero; the count is the number of
    such errors written since the last reset; and the flag for runtime errors is set just when one
    has been written since then.  Up to the next reset, the count and the flags never go down. -/
theorem reporter_keeps_account (ops : List Operation) :
    let r := ({} : Reporter).after ops
    let written := (({} : Reporter).after (untilReset ops)).writtenBy (sinceReset ops)
    (r.hadError = true ↔ 0 < r.errorCount) ∧
    r.errorCount = written.countP Diagnostic.isStatic ∧
    (r.hadRuntimeError = true ↔ ∃ d ∈ written, d.isStatic = false) ∧
    ∀ later : List Operation, (∀ op ∈ later, op.isReset = false) →
      r.errorCount ≤ (r.after later).errorCount ∧
      (r.hadError = true → (r.after later).hadError = true) ∧
      (r.hadRuntimeError = true → (r.after later).hadRuntimeError = true) := by
  intro r written
  have hwritten : written = ({} : Reporter).writtenBy (sinceReset ops) :=
    congrArg (·.writtenBy (sinceReset ops)) (after_untilReset ops)
  have hr : r = ({} : Reporter).reportAll written := by
    rw [hwritten]
    exact after_eq_sinceReset ops
  have hcount := Reporter.errorCount_reportAll {} written
  have herror := Reporter.hadError_reportAll {} written
  have hruntime := Reporter.hadRuntimeError_reportAll {} written
  rw [← hr] at hcount herror hruntime
  simp only [Nat.zero_add, Bool.false_or] at hcount herror hruntime
  refine ⟨?_, hcount, ?_, fun later hlater => ?_⟩
  · rw [herror, hcount, List.countP_pos_iff, List.any_eq_true]
  · rw [hruntime, List.any_eq_true]
    simp only [Bool.not_eq_true']
  · rw [Reporter.after_eq_reportAll hlater, Reporter.errorCount_reportAll,
      Reporter.hadError_reportAll, Reporter.hadRuntimeError_reportAll]
    refine ⟨Nat.le_add_right _ _, fun h => ?_, fun h => ?_⟩
    · rw [h, Bool.true_or]
    · rw [h, Bool.true_or]

/-- A source that fails, a reset, and then: a character that is no word, an operand that recovers
    from a stray operator, and statements that name what is not bound. -/
theorem reporter_keeps_account_anew :
    let plus : Token := { kind := .plus, lexeme := "+" }
    let x : Token := { kind := .identifier, lexeme := "x" }
    let ops : List Operation :=
      [.act {} (.run "print ;" {}), .act {} .reset, .scan "@",
        .ask ⟨[plus, x], Token.endOn 1⟩ 0 (.rule (.binary .factor)),
        .execute {} false [.print (.name x)]]
    let later : List Operation := [.ask ⟨[plus, x], Token.endOn 1⟩ 0 .program]
    let r := ({} : Reporter).after ops
    r = ⟨true, true, 2⟩ ∧ (∀ op ∈ later, op.isReset = false) ∧
      (({} : Reporter).writtenBy (sinceReset ops)).countP Diagnostic.isStatic = 2 ∧
      (∃ d ∈ ({} : Reporter).writtenBy (sinceReset ops), d.isStatic = false) ∧
      2 ≤ (r.after later).errorCount ∧ (r.after later).hadRuntimeError = true := by
  intro plus x ops later r
  have hr : r = ⟨true, true, 2⟩ := by decide +kernel
  have hlater : ∀ op ∈ later, op.isReset = false := by
    intro op hop
    rw [List.mem_singleton.mp hop]
    rfl
  have huntil : ({} : Reporter).after (untilReset ops) = {} := by decide +kernel
  obtain ⟨-, hcount, hruntime, hup⟩ := reporter_keeps_account ops
  obtain ⟨hmore, -, hstill⟩ := hup later hlater
  have hr' : ({} : Reporter).after ops = ⟨true, true, 2⟩ := hr
  rw [huntil, hr'] at hcount hruntime
  rw [hr'] at hmore hstill
  rw [hr]
  exact ⟨rfl, hlater, hcount.symm, hruntime.mp rfl, hmore, hstill rfl⟩

end Lox
