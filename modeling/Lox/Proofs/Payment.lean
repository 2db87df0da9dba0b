/-
  File:      Lox/Proofs/Payment.lean
  Subject:   Dropped operands and failures are paid for by reports.

  Where the parser drops an operand it leaves `invalid` in the tree, and where it gives up it fails.
  Reports are made far from there, but every such node has one of its own; and a failure is the last
  thing that is reported, at the token where the parser stopped.

  * `Expr.invalids`, `Stmt.invalids` -- how many operands of a tree were dropped;
  * `Reads.pays` -- a reading reports at least as many errors as it drops operands;
  * `Step.Pays` -- the same of steps, with the error that a failing one ends with;
  * `Cursor.Performed.Paid` -- the same of calls;
  * `Cursor.inner`, `Cursor.perform_declaration` -- a declaration and the call behind it;
  * `recovery_is_paid_for` -- all of this at every position of every stream.
-/
import Lox.Proofs.Blame
import Lox.Proofs.Strays

namespace Lox

/-! ## 1. Dropped operands -/

/-- How many operands of an expression were dropped. -/
def Expr.invalids : Expr → Nat
  | .literal _ => 0
  | .unary _ e => e.invalids
  | .binary l _ r => l.invalids + r.invalids
  | .grouping e => e.invalids
  | .name _ => 0
  | .assign _ e => e.invalids
  | .invalid => 1
  | .misplaced => 0

/-- How many operands of a statement were dropped. -/
def Stmt.invalids : Stmt → Nat
  | .expression e => e.invalids
  | .print e => e.invalids
  | .var _ none => 0
  | .var _ (some e) => e.invalids
  | .misplaced => 0

/-- How many operands were dropped from what stands to the left of a job. -/
def Job.invalids : Job → Nat
  | .chain _ left => left.invalids
  | _ => 0

variable {stop : Token} {ts us rest : List Token} {reports : List SyntaxError}

/-- **A reading reports at least as many errors as it drops operands.** -/
theorem Reads.pays {job : Job} {result : Except SyntaxError Expr}
    (h : Reads stop job us rest reports result) :
    ∀ e, result = .ok e → e.invalids ≤ job.invalids + reports.length := by
  induction h with
  | stray | alien | groupUnclosed | groupFailed | levelFailed | chainFailed | targetFailed
  | valueFailed =>
      intro e he
      cases he
  | literal | name =>
      intro e he
      cases he
      exact Nat.zero_le _
  | chainEnd =>
      intro e he
      cases he
      exact Nat.le_add_right _ _
  | @group _ _ _ _ _ inner _ _ _ ih =>
      intro e he
      cases he
      exact ih inner rfl
  | @prefixed op us rest reports result _ _ ih =>
      intro e he
      cases result with
      | error err => cases he
      | ok inner =>
          cases he
          exact ih inner rfl
  | unprefixed _ _ ih | steady _ _ ih | plain _ _ ih => exact ih
  | @dropped r op us rest reports err later result he hs _ _ _ =>
      -- the node stands for the stray operator, which has been reported
      intro e hok
      obtain ⟨-, -, rfl, -⟩ := he.stray_error err rfl hs
      cases result with
      | error err => cases hok
      | ok inner =>
          cases hok
          simp only [Expr.invalids, List.length_append, List.length_singleton]
          omega
  | level _ _ ihe ihl =>
      intro e he
      have hleft := ihe _ rfl
      have hwhole := ihl e he
      simp only [Job.invalids, List.length_append] at hleft hwhole ⊢
      omega
  | chainMore _ _ _ ihe ihl =>
      intro e he
      have hright := ihe _ rfl
      have hwhole := ihl e he
      simp only [Job.invalids, Expr.invalids, List.length_append] at hright hwhole ⊢
      omega
  | assigned _ _ _ _ ihl =>
      intro e he
      cases he
      have hvalue := ihl _ rfl
      simp only [Job.invalids, Expr.invalids, List.length_append] at hvalue ⊢
      omega
  | mistargeted _ _ _ _ ihe _ =>
      intro e he
      cases he
      have htarget := ihe _ rfl
      simp only [Job.invalids, List.length_append] at htarget ⊢
      omega

/-! ## 2. Steps -/

/-- A step before `ts` pays for itself: what it makes costs no more than the debt that it began with
    and its reports; and if it fails, the failure is its last report, at the first token that it
    leaves. -/
structure Step.Pays (stop : Token) (ts : List Token) (debt : Nat) (cost : α → Nat)
    (s : Step α) : Prop where
  made : ∀ a, s.result = .ok a → cost a ≤ debt + s.reports.length
  last : ∀ e, s.result = .error e → s.reports.getLast? = some e
  place : ∀ e, s.result = .error e → e.token = front stop (ts.drop s.used)

namespace Step.Pays

variable {debt : Nat} {cost : α → Nat} {s : Step α}

/-- A failure at the first token. -/
theorem fail (cause : SyntaxError.Cause) :
    (Step.fail ⟨front stop ts, cause⟩ : Step α).Pays stop ts debt cost where
  made a h := by cases h
  last e h := by cases h; rfl
  place e h := by cases h; rfl

theorem map {cost' : β → Nat} {f : α → β} (h : s.Pays stop ts debt cost)
    (hf : ∀ a, cost' (f a) = cost a) : (s.map f).Pays stop ts debt cost' where
  made b hb := by
    cases hs : s.result with
    | error e =>
        rw [result_map, hs] at hb
        cases hb
    | ok a =>
        rw [result_map, hs] at hb
        cases hb
        rw [hf]
        exact h.made a hs
  last e he := h.last e (map_eq_error he)
  place e he := h.place e (map_eq_error he)

/-- A step behind the first token. -/
theorem behind (h : s.Pays stop ts debt cost) (t : Token) :
    (s.behind 1).Pays stop (t :: ts) debt cost where
  made := h.made
  last := h.last
  place e he := by
    rw [used_behind, Nat.add_comm, List.drop_succ_cons]
    exact h.place e he

/-- A step and what follows it, which begins with the debt that the first one leaves. -/
theorem andThen {cost' : β → Nat} (h : s.Pays stop ts debt cost) {f : α → List Token → Step β}
    (hf : ∀ a rest, (f a rest).Pays stop rest (cost a) cost') :
    (s.andThen ts f).Pays stop ts debt cost' := by
  cases hs : s.result with
  | error e =>
      rw [andThen_of_error hs]
      refine ⟨fun b hb => ?_, fun e' he => ?_, fun e' he => ?_⟩
      · cases hb
      · cases he
        exact h.last e hs
      · cases he
        exact h.place e hs
  | ok a =>
      have hlater := hf a (ts.drop s.used)
      rw [andThen_of_ok hs]
      refine ⟨fun b hb => ?_, fun e he => ?_, fun e he => ?_⟩
      · have hfirst := h.made a hs
        have hsecond := hlater.made b hb
        rw [reports_followedBy, List.length_append]
        omega
      · rw [reports_followedBy, List.getLast?_append, hlater.last e he]
        rfl
      · rw [used_followedBy, ← List.drop_drop]
        exact hlater.place e he

end Step.Pays

section Rules

variable (stop ts)

/-- **Every job pays for the operands that it drops.** -/
theorem job_pays (job : Job) : (job.run stop ts).Pays stop ts job.invalids Expr.invalids := by
  obtain ⟨us, rest, hts, hused, hreads⟩ := reads_run stop job ts
  obtain ⟨inner, hreports, -, hfront⟩ := hreads.blames
  refine ⟨hreads.pays, fun e he => ?_, fun e he => ?_⟩
  · rw [hreports, he, raised_error, List.getLast?_concat]
  · rw [he, raised_error] at hfront
    rw [hused, hts, List.drop_left]
    exact hfront e (List.mem_singleton_self e)

/-- A token that is asked for costs nothing: the debt stays as it is. -/
theorem expect_pays (kind : Token.Kind) (cause : SyntaxError.Cause) (debt : Nat) :
    (expect stop kind cause ts).Pays stop ts debt fun _ => debt := by
  cases ts with
  | nil => exact .fail cause
  | cons t rest =>
      rw [expect]
      split
      · refine ⟨fun _ _ => Nat.le_add_right _ _, fun e he => ?_, fun e he => ?_⟩
        · cases he
        · cases he
      · exact .fail cause

theorem terminated_pays (cause : SyntaxError.Cause) {make : Expr → Stmt}
    (hm : ∀ e, (make e).invalids = e.invalids) :
    (terminated stop cause make ts).Pays stop ts 0 Stmt.invalids :=
  (job_pays stop ts (.rule .assignment)).andThen
    fun e rest => (expect_pays stop rest .semicolon cause e.invalids).map fun _ => hm e

theorem statement_pays : (statement stop ts).Pays stop ts 0 Stmt.invalids := by
  cases ts with
  | nil => exact terminated_pays stop [] _ fun _ => rfl
  | cons t rest =>
      rw [statement]
      split
      · exact (terminated_pays stop rest _ fun _ => rfl).behind t
      · exact terminated_pays stop (t :: rest) _ fun _ => rfl

theorem initializer_pays (target : Token) :
    (initializer stop target ts).Pays stop ts 0 Stmt.invalids := by
  cases ts with
  | nil => exact .fail _
  | cons t rest =>
      rw [initializer]
      split
      · exact (terminated_pays stop rest _ fun _ => rfl).behind t
      · exact (expect_pays stop (t :: rest) _ _ 0).map fun _ => rfl

theorem varDeclaration_pays : (varDeclaration stop ts).Pays stop ts 0 Stmt.invalids :=
  (expect_pays stop ts _ _ 0).andThen fun target rest => initializer_pays stop rest target

theorem anyStatement_pays : (anyStatement stop ts).Pays stop ts 0 Stmt.invalids := by
  cases ts with
  | nil => exact statement_pays stop []
  | cons t rest =>
      rw [anyStatement]
      split
      · exact (varDeclaration_pays stop rest).behind t
      · exact statement_pays stop (t :: rest)

end Rules

/-! ## 3. Calls -/

namespace Cursor

variable {c : Cursor}

/-- How many operands were dropped from the trees of an answer. -/
def Answer.invalids : Answer → Nat
  | .expression e => e.invalids
  | .statement s => s.invalids
  | .statements ss => ss.foldr (fun s n => s.invalids + n) 0
  | _ => 0

/-- A call is paid for: there is a report for every dropped operand of its answer; and if it fails,
    the failure is what it reported last, at the token where it left the cursor. -/
structure Performed.Paid (p : Performed) : Prop where
  nodes : p.answer.invalids ≤ p.diagnostics.length
  last : ∀ e, p.answer = .error e → p.diagnostics.getLast? = some (.syntactic e)
  place : ∀ e, p.answer = .error e → e.token = p.cursor.peek

/-- A call that takes a step is paid for if the step is. -/
theorem paid_take {s : Step α} {cost : α → Nat} {answer : α → Answer}
    (h : s.Pays c.stream.stop c.rest 0 cost) (ha : ∀ a, (answer a).invalids = cost a)
    (hne : ∀ a e, answer a ≠ .error e) : (c.take s answer).Paid where
  nodes := by
    simp only [take, move, List.length_map]
    cases hs : s.result with
    | error e => exact Nat.zero_le _
    | ok a =>
        have hmade := h.made a hs
        simp only [ha]
        omega
  last e he := by
    have hlast := h.last e ((answer_take hne).mp he)
    simp only [take, move, List.getLast?_map, hlast, Option.map_some]
  place e he := by
    have hplace := h.place e ((answer_take hne).mp he)
    rw [hplace, peek, take, rest_move]
    rfl

theorem paid_expression {s : Step Expr} (h : s.Pays c.stream.stop c.rest 0 Expr.invalids) :
    (c.take s .expression).Paid :=
  paid_take h (fun _ => rfl) fun _ _ he => by cases he

theorem paid_statement {s : Step Stmt} (h : s.Pays c.stream.stop c.rest 0 Stmt.invalids) :
    (c.take s .statement).Paid :=
  paid_take h (fun _ => rfl) fun _ _ he => by cases he

/-! ## 4. Declarations -/

/-- The call behind a declaration: what stands behind the word `var`, or a statement. -/
def inner (c : Cursor) : Performed :=
  let m := c.perform (.accept [.varWord])
  m.cursor.perform (if m.answer = .truth true then .varDeclaration else .statement)

/-- The answer, with a failure made into no answer at all. -/
def Answer.caught : Answer → Answer
  | .error _ => .nothing
  | a => a

theorem Answer.caught_eq_nothing {a : Answer} (h : a ≠ .nothing) :
    a.caught = .nothing ↔ ∃ e, a = .error e := by
  cases a with
  | nothing => exact absurd rfl h
  | error e => simp [caught]
  | truth | token | expression | statement | statements => simp [caught]

theorem Answer.caught_eq_statement {a : Answer} {s : Stmt} :
    a.caught = .statement s ↔ a = .statement s := by
  cases a <;> simp [caught]

theorem inner_eq (c : Cursor) :
    c.inner = c.take (anyStatement c.stream.stop c.rest) .statement := by
  cases hrest : c.rest with
  | nil =>
      have hcheck : c.check [.varWord] = false := by rw [check, hrest]
      simp [inner, perform, hcheck, hrest, anyStatement]
  | cons t others =>
      by_cases hv : t.kind = .varWord
      · have hcheck : c.check [.varWord] = true := by simp [check, hrest, hv]
        have hend : c.atEnd = false := by simp [atEnd, hrest]
        have hbehind : ({ c with position := c.position + 1 } : Cursor).rest = others := by
          show c.stream.tokens.drop (c.position + 1) = others
          rw [← List.drop_drop]
          show c.rest.drop 1 = others
          rw [hrest]
          rfl
        simp [inner, perform, hcheck, advance, hend, hbehind, anyStatement, hv, take, move,
          Nat.add_assoc]
      · have hcheck : c.check [.varWord] = false := by simp [check, hrest, hv]
        simp [inner, perform, hcheck, hrest, anyStatement, hv]

/-- **A declaration answers what the call behind it answers**, and nothing if that fails; it reports
    the same. -/
theorem perform_declaration (c : Cursor) :
    (c.perform .declaration).answer = c.inner.answer.caught ∧
      (c.perform .declaration).diagnostics = c.inner.diagnostics := by
  rw [inner_eq]
  simp only [perform, Lox.declaration, take, move]
  cases (anyStatement c.stream.stop c.rest).result with
  | ok stmt => exact ⟨rfl, rfl⟩
  | error e => exact ⟨rfl, rfl⟩

theorem inner_ne_nothing (c : Cursor) : c.inner.answer ≠ .nothing := by
  rw [inner_eq]
  simp only [take, move]
  cases (anyStatement c.stream.stop c.rest).result with
  | ok stmt =>
      intro h
      cases h
  | error e =>
      intro h
      cases h

theorem paid_inner (c : Cursor) : c.inner.Paid := by
  rw [inner_eq]
  exact paid_statement (anyStatement_pays _ _)

/-- A declaration is paid for: it never fails, and no answer holds no dropped operand. -/
theorem paid_declaration (c : Cursor) : (c.perform .declaration).Paid := by
  obtain ⟨hanswer, hdiagnostics⟩ := c.perform_declaration
  have hnodes := c.paid_inner.nodes
  have hcaught : c.inner.answer.caught.invalids ≤ c.inner.answer.invalids := by
    cases c.inner.answer <;> exact Nat.le_refl _
  have hne : ∀ e, (c.perform .declaration).answer ≠ .error e := by
    intro e he
    rw [hanswer] at he
    cases hinner : c.inner.answer <;> rw [hinner] at he <;> cases he
  refine ⟨?_, fun e he => absurd he (hne e), fun e he => absurd he (hne e)⟩
  rw [hanswer, hdiagnostics]
  exact Nat.le_trans hcaught hnodes

end Cursor

/-- **Dropped operands and failures are paid for by reports.** At every position of every stream, a
    call of a rule, of an operand or of a statement reports at least as many errors as operands are
    missing from the tree that it answers with; and if it fails, the failure is what it reported
    last, at the token where it left the cursor.  A declaration reports what the call behind it
    reports, and it has no answer just if that call failed. -/
theorem recovery_is_paid_for (s : Token.Stream) (r : Reporter) (n : Nat) :
    let c : Cursor := ⟨s, n, r⟩
    (∀ q, (c.perform (.rule q)).Paid) ∧
    (∀ q, (c.take (operand s.stop q c.rest) .expression).Paid) ∧
    (c.perform .expressionStatement).Paid ∧ (c.perform .printStatement).Paid ∧
    (c.perform .statement).Paid ∧ (c.perform .varDeclaration).Paid ∧
    (c.perform .declaration).Paid ∧
    (c.perform .declaration).diagnostics = c.inner.diagnostics ∧
    ((c.perform .declaration).answer = .nothing ↔ ∃ e, c.inner.answer = .error e) ∧
    ∀ t, (c.perform .declaration).answer = .statement t ↔ c.inner.answer = .statement t := by
  intro c
  obtain ⟨hanswer, hdiagnostics⟩ := c.perform_declaration
  refine ⟨fun q => ?_, fun q => ?_, ?_, ?_, ?_, ?_, c.paid_declaration, hdiagnostics, ?_,
    fun t => ?_⟩
  · exact Cursor.paid_expression (job_pays _ _ (.rule q))
  · exact Cursor.paid_expression (job_pays _ _ (.operand q))
  · exact Cursor.paid_statement (terminated_pays _ _ _ fun _ => rfl)
  · exact Cursor.paid_statement (terminated_pays _ _ _ fun _ => rfl)
  · exact Cursor.paid_statement (statement_pays _ _)
  · exact Cursor.paid_statement (varDeclaration_pays _ _)
  · rw [hanswer, Cursor.Answer.caught_eq_nothing c.inner_ne_nothing]
  · rw [hanswer, Cursor.Answer.caught_eq_statement]

end Lox
