/-
  File:      Lox/Proofs/Strays.lean
  Subject:   A failure for a stray operator never travels.

  Only the tightest two rules can fail for a stray operator, and they do so before they have taken
  anything.  Every other rule reaches them through an operand, and an operand recovers.

  * `Rule.parse_of_stray` -- where a rule fails for a stray operator, and what it has done by then;
  * `operandBySort`, `operand_eq_bySort` -- a recovery that does not look at the place of the error
    is the same recovery;
  * `Step.Contained` -- the steps that do not fail for a stray operator, rule by rule;
  * `Cursor.RaisesStray`, `stray_failures_never_travel` -- the same of calls, at every position.
-/
import Lox.Proofs.Progress

namespace Lox

variable {stop : Token} {ts : List Token}

/-! ## 1. Where a stray operator is met -/

/-- **A rule that fails for a stray operator** has done nothing but report it: it is one of the
    tightest two, and the operator is the first token before it. -/
theorem Rule.parse_of_stray {r : Rule} {e : SyntaxError}
    (he : (r.parse stop ts).result = .error e) (hs : e.cause.isStray = true) :
    (r = .primary ∨ r = .unary) ∧ r.parse stop ts = .fail e ∧
      ∃ t rest, ts = t :: rest ∧ t.kind ∈ binaryOperators ∧ e = ⟨t, .strayOperator⟩ := by
  obtain ⟨us, rest, hts, hused, hreads⟩ := reads_run stop (.rule r) ts
  obtain ⟨hjob, rfl, hreports, t, others, hrest, ht, herr⟩ := hreads.stray_error e he hs
  refine ⟨hjob.imp Job.rule.inj Job.rule.inj, ?_, t, others, hts.trans hrest, ht, herr⟩
  exact congr (congr (congrArg Step.mk hused) hreports) he

/-- At a binary operator the tightest rule fails. -/
theorem parse_primary_stray {t : Token} (ht : t.kind ∈ binaryOperators) (rest : List Token) :
    Rule.parse stop .primary (t :: rest) = .fail ⟨t, .strayOperator⟩ :=
  (Reads.stray ht).run_eq

/-- The only prefix among the binary operators is the minus sign. -/
theorem not_unary_of_binary {k : Token.Kind} (hk : k ∈ binaryOperators) (hm : k ≠ .minus) :
    k ∉ unaryOperators := by
  intro hu
  simp only [unaryOperators, List.mem_cons, hm, List.not_mem_nil, or_false] at hu
  rw [hu] at hk
  revert hk
  decide

/-- At a binary operator that is no prefix the rule above it fails as well. -/
theorem parse_unary_stray {t : Token} (ht : t.kind ∈ binaryOperators) (hm : t.kind ≠ .minus)
    (rest : List Token) : Rule.parse stop .unary (t :: rest) = .fail ⟨t, .strayOperator⟩ := by
  have hu := not_unary_of_binary ht hm
  rw [parse_unprefixed ((atFront_cons ..).mpr hu), parse_primary_stray ht]

/-! ## 2. Steps that do not fail for a stray operator -/

/-- If the step fails, then not for a stray operator. -/
def Step.Contained (s : Step α) : Prop :=
  ∀ e, s.result = .error e → e.cause.isStray = false

namespace Step.Contained

variable {s : Step α}

theorem fail {e : SyntaxError} (h : e.cause.isStray = false) :
    (Step.fail e : Step α).Contained := by
  intro e' he
  cases he
  exact h

theorem map (h : s.Contained) (f : α → β) : (s.map f).Contained :=
  fun e he => h e (map_eq_error he)

theorem behind (h : s.Contained) (n : Nat) : (s.behind n).Contained :=
  h

theorem andThen (h : s.Contained) {f : α → List Token → Step β}
    (hf : ∀ a rest, (f a rest).Contained) : (s.andThen ts f).Contained := by
  cases hs : s.result with
  | error e =>
      rw [andThen_of_error hs]
      intro e' he
      cases he
      exact h e hs
  | ok a =>
      rw [andThen_of_ok hs]
      exact hf a _

end Step.Contained

section Rules

variable (stop ts)

/-- **Every rule but the tightest two contains its stray operators.** -/
theorem rule_contained {r : Rule} (hp : r ≠ .primary) (hu : r ≠ .unary) :
    (r.parse stop ts).Contained := by
  intro e he
  refine Bool.eq_false_iff.mpr fun hs => ?_
  obtain ⟨h | h, -⟩ := Rule.parse_of_stray he hs
  · exact hp h
  · exact hu h

theorem expect_contained (kind : Token.Kind) {cause : SyntaxError.Cause}
    (h : cause.isStray = false) : (expect stop kind cause ts).Contained := by
  cases ts with
  | nil => exact .fail h
  | cons t rest =>
      rw [expect]
      split
      · intro e he
        cases he
      · exact .fail h

theorem terminated_contained {cause : SyntaxError.Cause} (h : cause.isStray = false)
    (make : Expr → Stmt) : (terminated stop cause make ts).Contained :=
  (rule_contained stop ts (by decide) (by decide)).andThen
    fun _ rest => (expect_contained stop rest _ h).map _

theorem statement_contained : (statement stop ts).Contained := by
  cases ts with
  | nil => exact terminated_contained stop [] rfl _
  | cons t rest =>
      rw [statement]
      split
      · exact (terminated_contained stop rest rfl _).behind 1
      · exact terminated_contained stop (t :: rest) rfl _

theorem initializer_contained (target : Token) : (initializer stop target ts).Contained := by
  cases ts with
  | nil => exact .fail rfl
  | cons t rest =>
      rw [initializer]
      split
      · exact (terminated_contained stop rest rfl _).behind 1
      · exact (expect_contained stop (t :: rest) _ rfl).map _

theorem varDeclaration_contained : (varDeclaration stop ts).Contained :=
  (expect_contained stop ts _ rfl).andThen fun target rest => initializer_contained stop rest target

end Rules

/-! ## 3. Operands -/

/-- An operand is read as by its rule, unless the rule fails for a stray operator. -/
theorem operand_of_contained {r : Rule} (h : (r.parse stop ts).Contained) :
    operand stop r ts = r.parse stop ts := by
  obtain ⟨us, rest, rfl, hused, -⟩ := reads_run stop (.rule r) ts
  have hparse : r.parse stop (us ++ rest) = ⟨us.length, _, _⟩ := congrArg (Step.mk · _ _) hused
  exact (operand_steady hparse fun e he _ _ => h e he).trans hparse.symm

/-- An operand that recovers from every stray operator, wherever the rule came across it. -/
def operandBySort (stop : Token) (r : Rule) (ts : List Token) : Step Expr :=
  let tried := r.parse stop ts
  match tried.result with
  | .error e =>
    if e.cause.isStray then
      tried.followedBy ((operand stop r ts.tail).map fun _ => .invalid) |>.behind 1
    else tried
  | .ok _ => tried

/-- **The place of the error makes no difference to the recovery of an operand.** -/
theorem operand_eq_bySort (stop : Token) (r : Rule) (ts : List Token) :
    operand stop r ts = operandBySort stop r ts := by
  cases he : (r.parse stop ts).result with
  | ok a =>
      simp only [operandBySort, he]
      exact operand_of_contained fun e h => by rw [he] at h; cases h
  | error e =>
      cases hs : e.cause.isStray with
      | false =>
          simp only [operandBySort, he, hs, Bool.false_eq_true, if_false]
          refine operand_of_contained fun e' h => ?_
          rw [he] at h
          cases h
          exact hs
      | true =>
          obtain ⟨-, hfail, t, rest, rfl, -⟩ := Rule.parse_of_stray he hs
          rw [operand_dropped hfail hs, operandBySort, hfail]
          simp [hs, Step.behind, Step.followedBy, Step.map, Step.fail]

/-! ## 4. Calls -/

namespace Cursor

variable {c : Cursor}

/-- The call fails for a stray operator. -/
def RaisesStray (c : Cursor) (call : Call) : Prop :=
  ∃ e, (c.perform call).answer = .error e ∧ e.cause.isStray = true

/-- A call that takes a step fails as the step does. -/
theorem answer_take {s : Step α} {answer : α → Answer} (ha : ∀ a e, answer a ≠ .error e)
    {e : SyntaxError} : (c.take s answer).answer = .error e ↔ s.result = .error e := by
  simp only [take, move]
  cases s.result with
  | ok a => simp [ha]
  | error e' => simp

theorem raisesStray_rule {r : Rule} : c.RaisesStray (.rule r) ↔
    ∃ e, (r.parse c.stream.stop c.rest).result = .error e ∧ e.cause.isStray = true := by
  have hanswer : ∀ a e, Answer.expression a ≠ .error e := fun a e h => by cases h
  exact exists_congr fun e => and_congr_left fun _ => answer_take hanswer

theorem not_raisesStray_of_contained {call : Call} {s : Step Stmt} (h : s.Contained)
    (hcall : c.perform call = c.take s .statement) : ¬ c.RaisesStray call := by
  rintro ⟨e, he, hs⟩
  have hanswer : ∀ a e, Answer.statement a ≠ .error e := fun a e h => by cases h
  rw [hcall, answer_take hanswer] at he
  have hfalse := h e he
  rw [hs] at hfalse
  cases hfalse

theorem not_raisesStray_rule {r : Rule} (hp : r ≠ .primary) (hu : r ≠ .unary) :
    ¬ c.RaisesStray (.rule r) := by
  rw [raisesStray_rule]
  rintro ⟨e, he, hs⟩
  have hfalse := rule_contained _ _ hp hu e he
  rw [hs] at hfalse
  cases hfalse

/-- A call that fails for a stray operator leaves the cursor where it was, before the operator. -/
theorem RaisesStray.stays {r : Rule} (h : c.RaisesStray (.rule r)) :
    (c.perform (.rule r)).cursor.position = c.position ∧ c.peek.kind ∈ binaryOperators := by
  obtain ⟨e, he, hs⟩ := raisesStray_rule.mp h
  obtain ⟨-, hfail, t, rest, hrest, ht, -⟩ := Rule.parse_of_stray he hs
  refine ⟨?_, ?_⟩
  · simp only [perform, take, move, hfail, Step.used_fail, Nat.add_zero]
  · rw [peek, hrest]
    exact ht

/-- Before a token that is no end marker there is something left to read. -/
theorem rest_eq_peek_cons (hc : c.stream.Ended) (h : c.peek.kind ≠ .eof) :
    ∃ others, c.rest = c.peek :: others := by
  obtain ⟨t, others, hrest⟩ := List.exists_cons_of_ne_nil (mt (rest_eq_nil_iff hc).mp h)
  exact ⟨others, by rw [peek, hrest]; rfl⟩

theorem rest_of_operator (hc : c.stream.Ended) (h : c.peek.kind ∈ binaryOperators) :
    ∃ others, c.rest = c.peek :: others := by
  refine rest_eq_peek_cons hc fun heof => ?_
  rw [heof] at h
  revert h
  decide

theorem raisesStray_primary_iff (hc : c.stream.Ended) :
    c.RaisesStray (.rule .primary) ↔ c.peek.kind ∈ binaryOperators := by
  refine ⟨fun h => h.stays.2, fun h => raisesStray_rule.mpr ?_⟩
  obtain ⟨others, hrest⟩ := rest_of_operator hc h
  exact ⟨⟨c.peek, .strayOperator⟩, by rw [hrest, parse_primary_stray h]; rfl, rfl⟩

theorem raisesStray_unary_iff (hc : c.stream.Ended) :
    c.RaisesStray (.rule .unary) ↔ c.peek.kind ∈ binaryOperators ∧ c.peek.kind ≠ .minus := by
  refine ⟨fun h => ⟨h.stays.2, fun hm => ?_⟩, fun h => raisesStray_rule.mpr ?_⟩
  · -- behind a prefix the cursor has moved
    obtain ⟨others, hrest⟩ := rest_of_operator hc h.stays.2
    have hprefix : c.peek.kind ∈ unaryOperators := by rw [hm]; decide
    have hstays := h.stays.1
    simp only [perform, take, move, hrest, Rule.parse, if_pos hprefix, Step.used_behind] at hstays
    omega
  · obtain ⟨others, hrest⟩ := rest_of_operator hc h.1
    exact ⟨⟨c.peek, .strayOperator⟩, by rw [hrest, parse_unary_stray h.1 h.2]; rfl, rfl⟩

end Cursor

/-- **A failure for a stray operator never travels.** At no position of a stream can a level of
    binary operators, an assignment or a statement fail for a stray operator.  The rule for primary
    expressions does so just before binary operators, and the one for unary operators just before
    those that are no prefix; and they leave the cursor there.  So an operand that asks whether its
    rule has moved the cursor is one that does not ask. -/
theorem stray_failures_never_travel (s : Token.Stream) (hs : s.Ended) (r : Reporter) (n : Nat) :
    let c : Cursor := ⟨s, n, r⟩
    (∀ l, ¬ c.RaisesStray (.rule (.binary l))) ∧ ¬ c.RaisesStray (.rule .assignment) ∧
    ¬ c.RaisesStray .statement ∧ ¬ c.RaisesStray .printStatement ∧
    ¬ c.RaisesStray .expressionStatement ∧ ¬ c.RaisesStray .varDeclaration ∧
    (c.RaisesStray (.rule .primary) ↔ c.peek.kind ∈ binaryOperators) ∧
    (c.RaisesStray (.rule .unary) ↔ c.peek.kind ∈ binaryOperators ∧ c.peek.kind ≠ .minus) ∧
    (∀ q, c.RaisesStray (.rule q) → (c.perform (.rule q)).cursor.position = c.position) ∧
    ∀ q, operand s.stop q c.rest = operandBySort s.stop q c.rest := by
  intro c
  have hc : c.stream.Ended := hs
  refine ⟨fun l => ?_, ?_, ?_, ?_, ?_, ?_, Cursor.raisesStray_primary_iff hc,
    Cursor.raisesStray_unary_iff hc, fun q h => h.stays.1, fun q => operand_eq_bySort _ q _⟩
  · exact Cursor.not_raisesStray_rule (fun h => by cases h) (fun h => by cases h)
  · exact Cursor.not_raisesStray_rule (by decide) (by decide)
  · exact Cursor.not_raisesStray_of_contained (statement_contained _ _) rfl
  · exact Cursor.not_raisesStray_of_contained (terminated_contained _ _ rfl _) rfl
  · exact Cursor.not_raisesStray_of_contained (terminated_contained _ _ rfl _) rfl
  · exact Cursor.not_raisesStray_of_contained (varDeclaration_contained _ _) rfl

/-- `1 + * 2;`, with the cursor before the product sign. -/
theorem stray_failures_never_travel_product :
    let one : Token := { kind := .number, lexeme := "1", literal := .number 1 }
    let plus : Token := { kind := .plus, lexeme := "+" }
    let star : Token := { kind := .star, lexeme := "*" }
    let two : Token := { kind := .number, lexeme := "2", literal := .number 2 }
    let semi : Token := { kind := .semicolon, lexeme := ";" }
    let s : Token.Stream := ⟨[one, plus, star, two, semi], Token.endOn 1⟩
    let c : Cursor := ⟨s, 2, {}⟩
    s.Ended ∧ c.RaisesStray (.rule .unary) ∧ (c.perform (.rule .unary)).cursor.position = 2 ∧
      ¬ c.RaisesStray (.rule (.binary .factor)) ∧ ¬ c.RaisesStray .expressionStatement := by
  intro one plus star two semi s c
  have hs : s.Ended := ⟨rfl, by decide⟩
  obtain ⟨hlevel, -, -, -, hexpression, -, -, hunary, hstays, -⟩ :=
    stray_failures_never_travel s hs {} 2
  have hraises : c.RaisesStray (.rule .unary) := hunary.mpr (by decide)
  exact ⟨hs, hraises, hstays .unary hraises, hlevel .factor, hexpression⟩

end Lox
